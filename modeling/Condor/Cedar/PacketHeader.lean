import Mathlib
import Condor.Cedar.SafeMsg

/-! The lengths in the headers are compared with the largest packet and not with the number of bytes
received. -/
namespace Condor.Cedar
open Condor.Utils Condor.Lib

/-! ## Two packets that differ behind the header -/

namespace Packet

def stop (p : Packet) : Int := p.data + p.length

/-- Two packets with the same headers, which hold the same bytes in front of the last one
of the payload. -/
structure Agree (p q : Packet) : Prop where
  length : p.length = q.length
  data : p.data = q.data
  md5KeyId : p.incomingMD5KeyId = q.incomingMD5KeyId
  encKeyId : p.incomingEncKeyId = q.incomingEncKeyId
  md : p.md = q.md
  bytes : ∀ i : Nat, i + 1 < p.stop → p.dataGram i = q.dataGram i

def Empty (p q : Packet) : Prop := p.length ≤ 0 ∧ q.length ≤ 0

@[simp] theorem stop_advance (p : Packet) (n : Nat) : (p.advance n).stop = p.stop := by
  simp only [stop, advance]
  omega

variable {p q : Packet}

theorem Agree.advance (same : Agree p q) (n : Nat) : Agree (p.advance n) (q.advance n) where
  length := by rw [Packet.advance, Packet.advance, same.length]
  data := by rw [Packet.advance, Packet.advance, same.data]
  md5KeyId := same.md5KeyId
  encKeyId := same.encKeyId
  md := same.md
  bytes := by
    intro i before
    rw [stop_advance] at before
    exact same.bytes i before

theorem Agree.slice (same : Agree p q) {off n : Nat}
    (before : off + n < p.stop) : p.dataGram.slice off n = q.dataGram.slice off n := by
  apply Memory.slice_congr
  intro i _ upper
  exact same.bytes i (by omega)

theorem Agree.next (same : Agree p q) (n : Nat) (more : 0 < (p.advance n).length) :
    p.bytes n = q.bytes n := by
  rw [Packet.bytes, Packet.bytes, ← same.data]
  apply same.slice
  simp only [Packet.advance, stop] at more ⊢
  omega

theorem length_takeMD_le (p : Packet) (flags : Nat) (mdKeyIdLen : Int) :
    (p.takeMD flags mdKeyIdLen).length ≤ p.length := by
  rw [takeMD]
  split
  · simp only [advance]
    omega
  · exact le_refl _

theorem length_takeEnc_le (p : Packet) (flags : Nat) (encKeyIdLen : Int) :
    (p.takeEnc flags encKeyIdLen).length ≤ p.length := by
  rw [takeEnc]
  split
  · simp only [advance]
    omega
  · exact le_refl _

@[simp] theorem stop_takeMD (p : Packet) (flags : Nat) (mdKeyIdLen : Int) :
    (p.takeMD flags mdKeyIdLen).stop = p.stop := by
  rw [takeMD]
  split
  · simp only [stop, advance]
    omega
  · rfl

@[simp] theorem stop_takeEnc (p : Packet) (flags : Nat) (encKeyIdLen : Int) :
    (p.takeEnc flags encKeyIdLen).stop = p.stop := by
  rw [takeEnc]
  split
  · simp only [stop, advance]
    omega
  · rfl

@[simp] theorem dataGram_takeMD (p : Packet) (flags : Nat) (mdKeyIdLen : Int) :
    (p.takeMD flags mdKeyIdLen).dataGram = p.dataGram := by
  rw [takeMD]
  split <;> rfl

@[simp] theorem dataGram_takeEnc (p : Packet) (flags : Nat) (encKeyIdLen : Int) :
    (p.takeEnc flags encKeyIdLen).dataGram = p.dataGram := by
  rw [takeEnc]
  split <;> rfl

@[simp] theorem stop_checkHeader (p : Packet) : p.checkHeader.stop = p.stop := by
  rw [checkHeader]
  split
  · rw [stop_takeEnc, stop_takeMD, stop_advance]
  · rfl

@[simp] theorem dataGram_checkHeader (p : Packet) : p.checkHeader.dataGram = p.dataGram := by
  rw [checkHeader]
  split
  · rw [dataGram_takeEnc, dataGram_takeMD]
    rfl
  · rfl

variable {p : Packet}

theorem checkHeader_of_untagged (untagged : p.bytes 4 ≠ cryptoTag) :
    p.checkHeader = p := if_neg untagged

theorem length_checkHeader_of_tagged (tagged : p.bytes 4 = cryptoTag) :
    p.checkHeader.length ≤ p.length - safeMsgCryptoHeaderSize := by
  rw [checkHeader, if_pos tagged]
  exact (length_takeEnc_le _ _ _).trans (length_takeMD_le _ _ _)

theorem length_checkHeader_le (p : Packet) : p.checkHeader.length ≤ p.length := by
  by_cases tagged : p.bytes 4 = cryptoTag
  · have shorter := length_checkHeader_of_tagged tagged
    omega
  · rw [checkHeader_of_untagged tagged]

theorem Agree.takeMD (same : Agree p q) (flags : Nat) (mdKeyIdLen : Int) :
    Agree (p.takeMD flags mdKeyIdLen) (q.takeMD flags mdKeyIdLen)
      ∨ Empty (p.takeMD flags mdKeyIdLen) (q.takeMD flags mdKeyIdLen) := by
  by_cases present : flags.testBit 0 ∧ 0 < mdKeyIdLen
  · simp only [Packet.takeMD, if_pos present, Empty]
    set key := same.advance mdKeyIdLen.toNat
    rcases lt_or_ge 0 ((p.advance mdKeyIdLen.toNat).advance macSize).length with more | none'
    · have keyMore : 0 < (p.advance mdKeyIdLen.toNat).length := by
        simp only [Packet.advance] at more ⊢
        omega
      refine Or.inl
        { key.advance macSize with
          md5KeyId := ?_
          md := ?_ }
      · exact congrArg some (same.next _ keyMore)
      · exact congrArg some (key.next _ more)
    · refine Or.inr ⟨none', ?_⟩
      rw [← (key.advance macSize).length]
      exact none'
  · simp only [Packet.takeMD, if_neg present]
    exact Or.inl same

theorem Agree.takeEnc (same : Agree p q) (flags : Nat) (encKeyIdLen : Int) :
    Agree (p.takeEnc flags encKeyIdLen) (q.takeEnc flags encKeyIdLen)
      ∨ Empty (p.takeEnc flags encKeyIdLen) (q.takeEnc flags encKeyIdLen) := by
  by_cases present : flags.testBit 1 ∧ 0 < encKeyIdLen
  · simp only [Packet.takeEnc, if_pos present, Empty]
    rcases lt_or_ge 0 (p.advance encKeyIdLen.toNat).length with more | none'
    · refine Or.inl { same.advance encKeyIdLen.toNat with encKeyId := ?_ }
      exact congrArg some (same.next _ more)
    · refine Or.inr ⟨none', ?_⟩
      rw [← (same.advance encKeyIdLen.toNat).length]
      exact none'
  · simp only [Packet.takeEnc, if_neg present]
    exact Or.inl same

theorem Agree.checkHeader (same : Agree p q)
    (tags : p.bytes 4 = cryptoTag ↔ q.bytes 4 = cryptoTag) :
    Agree p.checkHeader q.checkHeader ∨ Empty p.checkHeader q.checkHeader := by
  by_cases tagged : p.bytes 4 = cryptoTag
  · have tagged' := tags.mp tagged
    rcases lt_or_ge p.length (safeMsgCryptoHeaderSize + 1) with short | long
    · -- Not even the lengths of the key ids are in the packet.
      refine Or.inr ⟨?_, ?_⟩
      · have shorter := length_checkHeader_of_tagged tagged
        omega
      · have shorter := length_checkHeader_of_tagged tagged'
        rw [← same.length] at shorter
        omega
    · have fields : ∀ k, k + 2 ≤ safeMsgCryptoHeaderSize →
          field p.dataGram (p.data + k) 2 = field q.dataGram (q.data + k) 2 := by
        intro k bound
        rw [field, field, ← same.data, same.slice]
        simp only [stop]
        omega
      simp only [Packet.checkHeader, if_pos tagged, if_pos tagged', fields 4 (by decide),
        fields 6 (by decide), fields 8 (by decide)]
      set flags := field q.dataGram (q.data + 4) 2
      set mdKeyIdLen := short (field q.dataGram (q.data + 6) 2)
      set encKeyIdLen := short (field q.dataGram (q.data + 8) 2)
      rcases (same.advance safeMsgCryptoHeaderSize).takeMD flags mdKeyIdLen with next | none'
      · exact next.takeEnc flags encKeyIdLen
      · exact Or.inr ⟨(length_takeEnc_le _ _ _).trans none'.1,
          (length_takeEnc_le _ _ _).trans none'.2⟩
  · have untagged' : q.bytes 4 ≠ cryptoTag := fun other => tagged (tags.mpr other)
    rw [checkHeader_of_untagged tagged, checkHeader_of_untagged untagged']
    exact Or.inl same

theorem properlySized_iff (p : Packet) :
    p.properlySized = true ↔ 0 < p.length ∧ p.length ≤ safeMsgMaxPacketSize :=
  decide_eq_true_iff

theorem Empty.not_properlySized (empty : Empty p q) :
    p.properlySized = false ∧ q.properlySized = false := by
  have left := empty.1
  have right := empty.2
  simp only [properlySized, decide_eq_false_iff_not]
  constructor <;> omega

theorem Agree.properlySized (same : Agree p q) : p.properlySized = q.properlySized := by
  rw [Packet.properlySized, Packet.properlySized, same.length]

def opened (p : Packet) (datagram : Bytes) (off : Nat) (len : Int) : Packet :=
  { p with
    dataGram := Memory.overlay datagram p.dataGram
    length := len
    data := off
    curIndex := 0
    incomingMD5KeyId := none
    incomingEncKeyId := none
    md := none }

theorem bytes_opened (p : Packet) (d : Bytes) (off : Nat) (len : Int) (n : Nat) :
    (p.opened d off len).bytes n = (Memory.overlay d p.dataGram).slice off n := rfl

@[simp] theorem length_opened (p : Packet) (d : Bytes) (off : Nat) (len : Int) :
    (p.opened d off len).length = len := rfl

@[simp] theorem stop_opened (p : Packet) (d : Bytes) (off : Nat) (len : Int) :
    (p.opened d off len).stop = off + len := rfl

theorem receive_short {d : Bytes}
    (unmarked : (Memory.overlay d p.dataGram).slice 0 8 ≠ safeMsgMagic) :
    p.receive d = (none, (p.opened d 0 d.length).checkHeader) := by
  have counted : (0 : Int) ≤ d.length := Int.natCast_nonneg _
  simp only [receive, recvfrom, reset, getHeader, if_pos unmarked, if_pos counted, opened]

theorem receive_fragment {d : Bytes}
    (marked : (Memory.overlay d p.dataGram).slice 0 8 = safeMsgMagic) :
    p.receive d =
      (some (Fragment.read (Memory.overlay d p.dataGram)),
        (p.opened d safeMsgHeaderSize
          (field (Memory.overlay d p.dataGram) 11 2)).checkHeader) := by
  have notShort : ¬ (Memory.overlay d p.dataGram).slice 0 8 ≠ safeMsgMagic := not_not.mpr marked
  exact if_neg notShort

theorem Agree.taken (same : Agree p q) (fragment : Option Fragment)
    (payload : ∀ i : Nat, i < p.stop → p.dataGram i = q.dataGram i) :
    p.taken fragment = q.taken fragment := by
  have bytes : p.payload = q.payload := by
    rw [Packet.payload, Packet.payload, Packet.bytes, Packet.bytes, ← same.length, ← same.data]
    apply Memory.slice_congr
    intro i lower upper
    apply payload
    rw [stop]
    omega
  rw [Packet.taken, Packet.taken, bytes, same.md5KeyId, same.md, same.encKeyId]

end Packet

def conclude (fragment : Option Fragment) (p : Packet) : Option Taken :=
  if p.properlySized then some (p.taken fragment) else none

theorem decision_eq (p : Packet) (d : Bytes) :
    p.decision d = conclude (p.receive d).1 (p.receive d).2 := rfl

variable {d : Bytes}
variable {off len : Nat}

/-- A payload within the datagram, whose security header does not break off. -/
theorem conclude_within (p q : Packet) (inside : off + len ≤ d.length)
    (settled : Memory.Settled cryptoTag (d.drop off)) (fragment : Option Fragment) :
    conclude fragment (p.opened d off len).checkHeader
      = conclude fragment (q.opened d off len).checkHeader := by
  have own : ∀ i : Nat, i < d.length →
      (p.opened d off len).dataGram i = (q.opened d off len).dataGram i := by
    intro i before
    exact Memory.overlay_of_lt _ _ before
  have same : Packet.Agree (p.opened d off len) (q.opened d off len) :=
    { length := rfl
      data := rfl
      md5KeyId := rfl
      encKeyId := rfl
      md := rfl
      bytes := by
        intro i before
        rw [Packet.stop_opened] at before
        exact own i (by omega) }
  have tag : ∀ r : Packet, (r.opened d off len).bytes 4 = cryptoTag ↔ cryptoTag <+: d.drop off :=
    fun r => Memory.slice_eq_mark_iff r.dataGram off (by omega) settled
  rcases same.checkHeader ((tag p).trans (tag q).symm) with agree | empty
  · have taken := agree.taken fragment (by
      intro i before
      rw [Packet.stop_checkHeader, Packet.stop_opened] at before
      rw [Packet.dataGram_checkHeader, Packet.dataGram_checkHeader]
      exact own i (by omega))
    rw [conclude, conclude, agree.properlySized, taken]
  · rw [conclude, conclude, empty.not_properlySized.1, empty.not_properlySized.2]
    rfl

/-! ## Datagrams that are judged by their own bytes -/

def announced (d : Bytes) : Nat := ofBigEndian ((d.drop 11).take 2)

theorem field_announced (m : Memory UInt8) (enough : 13 ≤ d.length) :
    field (Memory.overlay d m) 11 2 = announced d := by
  rw [field, Memory.slice_overlay m (by omega), announced]

theorem field_own (m m' : Memory UInt8) {size : Nat} (inside : off + size ≤ d.length) :
    field (Memory.overlay d m) off size = field (Memory.overlay d m') off size := by
  rw [field, field, Memory.slice_overlay m inside, Memory.slice_overlay m' inside]

theorem read_own (m m' : Memory UInt8) (enough : safeMsgHeaderSize ≤ d.length) :
    Fragment.read (Memory.overlay d m) = Fragment.read (Memory.overlay d m') := by
  have size : 25 ≤ d.length := enough
  have last := Memory.overlay_of_lt m m' (show 8 < d.length by omega)
  simp only [Fragment.read, last, field_own m m' (show 9 + 2 ≤ d.length by omega),
    field_own m m' (show 13 + 4 ≤ d.length by omega),
    field_own m m' (show 17 + 2 ≤ d.length by omega),
    field_own m m' (show 19 + 4 ≤ d.length by omega),
    field_own m m' (show 23 + 2 ≤ d.length by omega)]

/-- The datagram holds all that its header announces and breaks off in neither mark. -/
def Whole (d : Bytes) : Prop :=
  if safeMsgMagic <+: d then
    safeMsgHeaderSize + announced d ≤ d.length
      ∧ Memory.Settled cryptoTag (d.drop safeMsgHeaderSize)
  else Memory.Settled safeMsgMagic d ∧ Memory.Settled cryptoTag d

instance (d : Bytes) : Decidable (Whole d) := by
  unfold Whole
  exact inferInstance

/-- Whatever the buffer held, the length left for the payload is out of range. -/
def Refused (d : Bytes) : Prop := ∀ p : Packet, (p.receive d).2.properlySized = false

theorem decision_of_refused (refused : Refused d) (p : Packet) : p.decision d = none := by
  rw [decision_eq, conclude, refused p]
  rfl

theorem decision_of_whole (whole : Whole d) (p q : Packet) : p.decision d = q.decision d := by
  by_cases marked : safeMsgMagic <+: d
  · rw [Whole, if_pos marked] at whole
    obtain ⟨complete, settled⟩ := whole
    have size : safeMsgHeaderSize = 25 := rfl
    have header : ∀ r : Packet, (Memory.overlay d r.dataGram).slice 0 8 = safeMsgMagic :=
      fun r => Memory.slice_eq_mark r.dataGram 0 marked
    have own := read_own (d := d) p.dataGram q.dataGram (by omega)
    have length : ∀ r : Packet, field (Memory.overlay d r.dataGram) 11 2 = announced d :=
      fun r => field_announced r.dataGram (by omega)
    rw [decision_eq, decision_eq, Packet.receive_fragment (header p),
      Packet.receive_fragment (header q), own, length p, length q]
    exact conclude_within p q complete settled _
  · rw [Whole, if_neg marked] at whole
    have header : ∀ r : Packet, (Memory.overlay d r.dataGram).slice 0 8 ≠ safeMsgMagic := by
      intro r same
      exact marked ((Memory.slice_eq_mark_iff r.dataGram 0 (Nat.zero_le _) whole.1).mp same)
    rw [decision_eq, decision_eq, Packet.receive_short (header p), Packet.receive_short (header q)]
    have within : 0 + d.length ≤ d.length := by omega
    exact conclude_within p q within whole.2 none

/-! ## Datagrams that the rest of the buffer completes -/

def Packet.holding (left : Bytes) : Packet :=
  { Packet.init with dataGram := Memory.overlay left fun _ => 0 }

variable {p : Packet} {fragment : Option Fragment}

theorem fragment_of_conclude {t : Taken} (some' : conclude fragment p = some t) :
    t.fragment = fragment := by
  rw [conclude] at some'
  split at some'
  · cases some'
    rfl
  · cases some'

theorem conclude_of_untagged (untagged : p.bytes 4 ≠ cryptoTag) (lower : 0 < p.length)
    (upper : p.length ≤ safeMsgMaxPacketSize) :
    conclude fragment p.checkHeader = some (p.taken fragment) := by
  rw [Packet.checkHeader_of_untagged untagged]
  exact if_pos ((Packet.properlySized_iff p).mpr ⟨lower, upper⟩)

theorem conclude_of_tagged_short (tagged : p.bytes 4 = cryptoTag)
    (short : p.length ≤ safeMsgCryptoHeaderSize) :
    conclude fragment p.checkHeader = none := by
  have shorter := Packet.length_checkHeader_of_tagged tagged
  apply if_neg
  rw [Packet.properlySized_iff]
  omega

/-- The beginning of the first mark is a fragment if the buffer continues it. -/
theorem magic_completed (open' : ¬ Memory.Settled safeMsgMagic d) :
    ∃ p q : Packet, p.decision d ≠ q.decision d := by
  rw [Memory.Settled, Classical.not_imp] at open'
  obtain ⟨begins, proper⟩ := open'
  have shorter : d.length < 8 := by
    rcases Nat.lt_or_ge d.length 8 with short | long
    · exact short
    · exact absurd (begins.eq_of_length_le long) proper
  -- A fragment of one byte.
  set left := safeMsgMagic ++ [0, 0, 0, 0, 1]
  have memory : Memory.overlay d (Packet.holding left).dataGram = (Packet.holding left).dataGram :=
    Memory.overlay_overlay (begins.trans ( List.prefix_append _ _)) _
  have marked : (Memory.overlay d (Packet.holding left).dataGram).slice 0 8 = safeMsgMagic := by
    rw [memory]
    decide
  have unmarked : (Memory.overlay d (Packet.holding []).dataGram).slice 0 8 ≠ safeMsgMagic := by
    intro same
    have seventh := Memory.slice_inj (same.trans (show _ = (Packet.holding left).dataGram.slice 0 8
      by decide)) (i := 7) (by omega) (by omega)
    rw [Memory.overlay_of_le _ (by omega)] at seventh
    exact absurd seventh (by decide)
  refine ⟨Packet.holding left, Packet.holding [], ?_⟩
  rw [decision_eq, decision_eq, Packet.receive_fragment marked, Packet.receive_short unmarked,
    memory]
  have one : field (Packet.holding left).dataGram 11 2 = 1 := by decide
  have untagged : ((Packet.holding left).opened d safeMsgHeaderSize (1 : Nat)).bytes 4
      ≠ cryptoTag := by
    rw [Packet.bytes_opened, memory]
    decide
  have bound : (1 : Int) ≤ safeMsgMaxPacketSize := by decide
  rw [one, conclude_of_untagged untagged Int.one_pos bound]
  intro same
  cases fragment_of_conclude same.symm

/-- The beginning of the second mark is rejected if the buffer continues it. -/
theorem tag_completed (marked : ¬ safeMsgMagic <+: d)
    (settled : Memory.Settled safeMsgMagic d) (open' : ¬ Memory.Settled cryptoTag d) :
    ∃ p q : Packet, p.decision d ≠ q.decision d := by
  obtain ⟨old, tagged⟩ := Memory.exists_mark (fun _ => 0) (Nat.zero_le _)
    (show ¬ Memory.Apart cryptoTag (d.drop 0) from fun apart => open' apart.settled)
  rw [Memory.Settled, Classical.not_imp] at open'
  obtain ⟨begins, proper⟩ := open'
  have shorter : d.length < 4 := by
    rcases Nat.lt_or_ge d.length 4 with short | long
    · exact short
    · exact absurd (begins.eq_of_length_le long) proper
  have nonempty : 0 < d.length := by
    rcases Nat.eq_zero_or_pos d.length with blank | more
    · rw [List.length_eq_zero_iff.mp blank] at settled
      exact absurd (settled List.nil_prefix) (by decide)
    · exact more
  have unmarked : ∀ r : Packet, (Memory.overlay d r.dataGram).slice 0 8 ≠ safeMsgMagic := by
    intro r same
    exact marked ((Memory.slice_eq_mark_iff r.dataGram 0 (Nat.zero_le _) settled).mp same)
  set p := { Packet.init with dataGram := old }
  have untagged : ((Packet.holding []).opened d 0 d.length).bytes 4 ≠ cryptoTag := by
    rw [Packet.bytes_opened]
    intro same
    have third := Memory.slice_inj (same.trans (show _ =
      (Packet.holding cryptoTag).dataGram.slice 0 4 by decide)) (i := 3) (by omega) (by omega)
    rw [Memory.overlay_of_le _ (by omega)] at third
    exact absurd third (by decide)
  refine ⟨p, Packet.holding [], ?_⟩
  rw [decision_eq, decision_eq, Packet.receive_short (unmarked _),
    Packet.receive_short (unmarked _)]
  have size : safeMsgCryptoHeaderSize = 10 := rfl
  have bound : safeMsgMaxPacketSize = 60000 := rfl
  rw [conclude_of_tagged_short (p := p.opened d 0 d.length) tagged
      (by rw [Packet.length_opened]; omega),
    conclude_of_untagged untagged (by rw [Packet.length_opened]; omega)
      (by rw [Packet.length_opened]; omega)]
  exact Option.some_ne_none _ ∘ Eq.symm

/-! ## Fragments that announce more than they hold -/

def otherByte (b : UInt8) : UInt8 := if b = 0 then 1 else 0

theorem otherByte_ne (b : UInt8) : otherByte b ≠ b := by
  rw [otherByte]
  split
  · rename_i zero
    rw [zero]
    decide
  · rename_i nonzero
    exact fun same => nonzero same.symm

theorem otherByte_not_mem (b : UInt8) : otherByte b ∉ cryptoTag := by
  rw [otherByte]
  split <;> decide

def Packet.altered (p : Packet) (i : Nat) : Packet :=
  { p with dataGram := Function.update p.dataGram i (otherByte (p.dataGram i)) }

theorem fragment_completed (marked : (Memory.overlay d p.dataGram).slice 0 8 = safeMsgMagic)
    (length : field (Memory.overlay d p.dataGram) 11 2 = len)
    (sized : (p.opened d safeMsgHeaderSize len).checkHeader.properlySized = true)
    (short : d.length < safeMsgHeaderSize + len) :
    ∃ q : Packet, p.decision d ≠ q.decision d := by
  have size : safeMsgHeaderSize = 25 := rfl
  obtain ⟨lower, _⟩ := (Packet.properlySized_iff _).mp sized
  have some' : 0 < len := by
    have shorter := (p.opened d safeMsgHeaderSize len).length_checkHeader_le
    rw [Packet.length_opened] at shorter
    omega
  set i := safeMsgHeaderSize + len - 1 with last
  set q := p.altered i
  have memory : Memory.overlay d q.dataGram
      = Function.update (Memory.overlay d p.dataGram) i (otherByte (p.dataGram i)) :=
    Memory.overlay_update _ _ (by omega)
  have unchanged : ∀ off n, off + n ≤ i →
      (Memory.overlay d q.dataGram).slice off n = (Memory.overlay d p.dataGram).slice off n := by
    intro off n before
    rw [memory, Memory.slice_update _ _ before]
  have marked' : (Memory.overlay d q.dataGram).slice 0 8 = safeMsgMagic := by
    rw [unchanged 0 8 (by omega), marked]
  have length' : field (Memory.overlay d q.dataGram) 11 2 = len := by
    rw [field, unchanged 11 2 (by omega)]
    exact length
  have tags : (p.opened d safeMsgHeaderSize len).bytes 4 = cryptoTag
      ↔ (q.opened d safeMsgHeaderSize len).bytes 4 = cryptoTag := by
    rw [Packet.bytes_opened, Packet.bytes_opened]
    rcases Nat.lt_or_ge i (safeMsgHeaderSize + 4) with near | far
    · -- The payload ends within the mark; tagged, it would have been rejected.
      have crypto : safeMsgCryptoHeaderSize = 10 := rfl
      constructor
      · intro tagged
        have shorter := Packet.length_checkHeader_of_tagged
          (p := p.opened d safeMsgHeaderSize len) tagged
        rw [Packet.length_opened] at shorter
        omega
      · intro tagged
        have mem := Memory.mem_slice (Memory.overlay d q.dataGram)
          (show safeMsgHeaderSize ≤ i by omega) near
        rw [tagged, memory, Function.update_self] at mem
        exact absurd mem (otherByte_not_mem _)
    · rw [unchanged safeMsgHeaderSize 4 far]
  have same : Packet.Agree (p.opened d safeMsgHeaderSize len) (q.opened d safeMsgHeaderSize len) :=
    { length := rfl
      data := rfl
      md5KeyId := rfl
      encKeyId := rfl
      md := rfl
      bytes := by
        intro j before
        rw [Packet.stop_opened] at before
        have elsewhere : j ≠ i := by omega
        exact ((congrFun memory j).trans (Function.update_of_ne elsewhere _ _)).symm }
  refine ⟨q, ?_⟩
  rw [decision_eq, decision_eq, Packet.receive_fragment marked, Packet.receive_fragment marked',
    length, length']
  rcases same.checkHeader tags with agree | empty
  · have sized' := agree.properlySized.symm.trans sized
    rw [conclude, conclude, if_pos sized, if_pos sized', ne_eq, Option.some_inj]
    intro equal
    have payloads := congrArg Taken.payload equal
    simp only [Packet.taken, Packet.payload, Packet.bytes, ← agree.length, ← agree.data] at payloads
    have stop := (p.opened d safeMsgHeaderSize len).stop_checkHeader
    rw [Packet.stop, Packet.stop_opened] at stop
    have byte := Memory.slice_inj payloads (i := i) (by omega) (by omega)
    rw [Packet.dataGram_checkHeader, Packet.dataGram_checkHeader] at byte
    have changed := (congrFun memory i).trans (Function.update_self i _ _)
    have old := Memory.overlay_of_le p.dataGram (show d.length ≤ i by omega)
    exact otherByte_ne _ (changed.symm.trans (byte.symm.trans old))
  · rw [empty.not_properlySized.1] at sized
    cases sized

theorem fragment_tag_completed (marked : safeMsgMagic <+: d) (accepted : p.decision d ≠ none)
    (complete : safeMsgHeaderSize + announced d ≤ d.length)
    (open' : ¬ Memory.Settled cryptoTag (d.drop safeMsgHeaderSize)) :
    ∃ q : Packet, p.decision d ≠ q.decision d := by
  have size : safeMsgHeaderSize = 25 := rfl
  obtain ⟨old, tagged⟩ := Memory.exists_mark (fun _ => 0) (by omega)
    (fun apart => open' apart.settled)
  rw [Memory.Settled, Classical.not_imp] at open'
  have few : d.length - safeMsgHeaderSize ≤ 4 := by
    have sizes := open'.1.length_le
    rwa [List.length_drop] at sizes
  set q := { Packet.init with dataGram := old }
  refine ⟨q, ?_⟩
  have rejected : q.decision d = none := by
    rw [decision_eq, Packet.receive_fragment (Memory.slice_eq_mark q.dataGram 0 marked),
      field_announced q.dataGram (by omega)]
    have crypto : safeMsgCryptoHeaderSize = 10 := rfl
    have short : (q.opened d safeMsgHeaderSize (announced d)).length ≤ safeMsgCryptoHeaderSize := by
      rw [Packet.length_opened]
      omega
    exact conclude_of_tagged_short tagged short
  rw [rejected]
  exact accepted

theorem whole_or_refused (same : ∀ p q : Packet, p.decision d = q.decision d) :
    Whole d ∨ Refused d := by
  by_cases marked : safeMsgMagic <+: d
  · by_cases refused : Refused d
    · exact Or.inr refused
    · refine Or.inl ?_
      obtain ⟨p, sized⟩ := not_forall.mp refused
      rw [Bool.not_eq_false] at sized
      have header := Memory.slice_eq_mark p.dataGram 0 marked
      have received := Packet.receive_fragment (p := p) header
      set len := field (Memory.overlay d p.dataGram) 11 2 with length
      rw [received] at sized
      -- All of the payload has been received, or its last byte would be arbitrary.
      have complete : safeMsgHeaderSize + len ≤ d.length := by
        by_contra short
        obtain ⟨q, differ⟩ := fragment_completed header length.symm sized (by omega)
        exact differ (same p q)
      have size : safeMsgHeaderSize = 25 := rfl
      rw [length, field_announced p.dataGram (by omega)] at complete
      rw [Whole, if_pos marked]
      refine ⟨complete, ?_⟩
      by_contra open'
      have accepted : p.decision d ≠ none := by
        rw [decision_eq, received, conclude, if_pos sized]
        exact Option.some_ne_none _
      obtain ⟨q, differ⟩ := fragment_tag_completed marked accepted complete open'
      exact differ (same p q)
  · refine Or.inl ?_
    rw [Whole, if_neg marked]
    have settled : Memory.Settled safeMsgMagic d := by
      by_contra open'
      obtain ⟨p, q, differ⟩ := magic_completed open'
      exact differ (same p q)
    refine ⟨settled, ?_⟩
    by_contra open'
    obtain ⟨p, q, differ⟩ := tag_completed marked settled open'
    exact differ (same p q)

def bareHeader : Bytes :=
  safeMsgMagic ++ [1] ++ bigEndian 2 0 ++ bigEndian 2 5 ++ List.replicate 12 0

end Condor.Cedar
