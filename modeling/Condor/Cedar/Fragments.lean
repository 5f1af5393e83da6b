import Mathlib
import Condor.Cedar.SafeMsg

/-! `putn` starts a new packet only when there is more to store: the packets hold pieces of 975
bytes and a last piece that is not empty. -/
namespace Condor.Cedar
open Condor.Utils Condor.Lib

namespace OutPacket

/-- Without keys a packet is its payload. -/
def plain (payload : Bytes) : OutPacket := ⟨0, payload, none, none⟩

variable (payload : Bytes)

@[simp] theorem curIndex_plain : (plain payload).curIndex = payload.length := by
  simp only [curIndex, plain, Nat.zero_add]

theorem full_plain : (plain payload).full = true ↔ payload.length = usablePacketSize := by
  rw [full, curIndex_plain, decide_eq_true_iff]

theorem empty_plain : (plain payload).empty = true ↔ payload = [] := by
  rw [empty, curIndex_plain, decide_eq_true_iff]
  exact List.length_eq_zero_iff

theorem data_plain : (plain payload).data none = payload := rfl

theorem putMax_plain (dta : Bytes) :
    (plain payload).putMax dta =
      (plain (payload ++ dta.take (usablePacketSize - payload.length)),
        min dta.length (usablePacketSize - payload.length)) := by
  rw [putMax, curIndex_plain]
  rfl

end OutPacket

namespace OutMsg

def ofPieces (filled : List Bytes) (last : Bytes) : OutMsg :=
  ⟨filled.map OutPacket.plain, OutPacket.plain last⟩

/-- The pieces of a message: full ones, and a last one that is empty only at the start. -/
structure Pieces (filled : List Bytes) (last : Bytes) : Prop where
  full : ∀ piece ∈ filled, piece.length = usablePacketSize
  fits : last.length ≤ usablePacketSize
  started : filled ≠ [] → last ≠ []

def content (filled : List Bytes) (last : Bytes) : Bytes := filled.flatten ++ last

variable {filled : List Bytes} {last : Bytes}

theorem putMax_pieces {dta : Bytes} (pieces : Pieces filled last) (more : dta ≠ []) :
    ∃ filled' last', Pieces filled' last' ∧ ∃ n, 0 < n ∧ n ≤ dta.length
      ∧ content filled' last' = content filled last ++ dta.take n
      ∧ (ofPieces filled last).putMax dta = (ofPieces filled' last', n) := by
  have some' : 0 < dta.length := List.length_pos_iff.mpr more
  have room : 0 < usablePacketSize := by decide
  have nonempty : ∀ k, 0 < k → dta.take k ≠ [] := by
    intro k positive nothing
    have length := congrArg List.length nothing
    rw [List.length_take, List.length_nil] at length
    omega
  by_cases full : last.length = usablePacketSize
  · -- The last packet is full: a new one begins.
    have next : (ofPieces filled last).nextPacket = ofPieces (filled ++ [last]) [] := by
      refine (if_pos ((OutPacket.full_plain last).mpr full)).trans ?_
      simp only [ofPieces, List.map_append, List.map_cons, List.map_nil]
      rfl
    refine ⟨filled ++ [last], dta.take usablePacketSize, ?_,
      min dta.length usablePacketSize, by omega, by omega, ?_, ?_⟩
    · refine ⟨?_, ?_, fun _ => nonempty _ room⟩
      · intro piece member
        rcases List.mem_append.mp member with old | new
        · exact pieces.full piece old
        · rw [List.mem_singleton.mp new, full]
      · rw [List.length_take]
        omega
    · rw [content, content, List.flatten_append, List.flatten_singleton, List.append_assoc,
        List.append_assoc, Nat.min_comm, ← List.take_eq_take_min]
    · rw [putMax, next]
      simp only [ofPieces, OutPacket.putMax_plain, List.nil_append, List.length_nil, Nat.sub_zero]
  · have notFull : (ofPieces filled last).nextPacket = ofPieces filled last := by
      rw [nextPacket, if_neg]
      rw [ofPieces, OutPacket.full_plain]
      exact full
    have fits := pieces.fits
    refine ⟨filled, last ++ dta.take (usablePacketSize - last.length), ?_,
      min dta.length (usablePacketSize - last.length), by omega, by omega, ?_, ?_⟩
    · refine ⟨pieces.full, ?_, ?_⟩
      · rw [List.length_append, List.length_take]
        omega
      · intro _ nothing
        exact nonempty _ (by omega) (List.append_eq_nil_iff.mp nothing).2
    · rw [content, content, List.append_assoc, Nat.min_comm, ← List.take_eq_take_min]
    · rw [putMax, notFull]
      simp only [ofPieces, OutPacket.putMax_plain]

theorem putLoop_pieces (fuel : Nat) (dta : Bytes) (enough : dta.length ≤ fuel)
    (pieces : Pieces filled last) :
    ∃ filled' last', Pieces filled' last'
      ∧ content filled' last' = content filled last ++ dta
      ∧ putLoop fuel (ofPieces filled last) dta = ofPieces filled' last' := by
  induction fuel generalizing filled last dta with
  | zero =>
    have nothing : dta = [] := List.length_eq_zero_iff.mp (Nat.le_zero.mp enough)
    exact ⟨filled, last, pieces, by rw [nothing, List.append_nil], rfl⟩
  | succ fuel ih =>
    by_cases nothing : dta = []
    · refine ⟨filled, last, pieces, by rw [nothing, List.append_nil], ?_⟩
      rw [putLoop, if_pos nothing]
    · obtain ⟨filled₁, last₁, pieces₁, n, positive, _, content₁, step⟩ :=
        putMax_pieces pieces nothing
      have less : (dta.drop n).length ≤ fuel := by
        rw [List.length_drop]
        omega
      obtain ⟨filled₂, last₂, pieces₂, content₂, rest⟩ := ih (dta.drop n) less pieces₁
      refine ⟨filled₂, last₂, pieces₂, ?_, ?_⟩
      · rw [content₂, content₁, List.append_assoc, List.take_append_drop]
      · rw [putLoop, if_neg nothing, step]
        exact rest

def putAll (m : OutMsg) (puts : List Bytes) : OutMsg := puts.foldl putn m

theorem putAll_pieces (puts : List Bytes) :
    ∃ filled last, Pieces filled last ∧ content filled last = puts.flatten
      ∧ init.putAll puts = ofPieces filled last := by
  have run : ∀ (puts : List Bytes) {filled : List Bytes} {last : Bytes}, Pieces filled last →
      ∃ filled' last', Pieces filled' last'
        ∧ content filled' last' = content filled last ++ puts.flatten
        ∧ (ofPieces filled last).putAll puts = ofPieces filled' last' := by
    intro puts
    induction puts with
    | nil =>
      intro filled last pieces
      exact ⟨filled, last, pieces, (List.append_nil _).symm, rfl⟩
    | cons dta rest ih =>
      intro filled last pieces
      obtain ⟨filled₁, last₁, pieces₁, content₁, step⟩ :=
        putLoop_pieces dta.length dta le_rfl pieces
      obtain ⟨filled₂, last₂, pieces₂, content₂, later⟩ := ih pieces₁
      refine ⟨filled₂, last₂, pieces₂, ?_, ?_⟩
      · rw [content₂, content₁, List.flatten_cons, List.append_assoc]
      · rw [putAll, List.foldl_cons, putn, step]
        exact later
  have start : Pieces [] [] := ⟨by simp, Nat.zero_le _, fun absurd' => absurd rfl absurd'⟩
  exact run puts start

theorem Pieces.long {piece : Bytes} {rest : List Bytes} (pieces : Pieces (piece :: rest) last) :
    usablePacketSize < (content (piece :: rest) last).length := by
  have full := pieces.full piece List.mem_cons_self
  have some' := List.length_pos_iff.mpr (pieces.started (List.cons_ne_nil _ _))
  simp only [content, List.flatten_cons, List.length_append]
  omega

theorem Pieces.unique {filled' : List Bytes} {last' : Bytes} (pieces : Pieces filled last)
    (pieces' : Pieces filled' last') (same : content filled last = content filled' last') :
    filled = filled' ∧ last = last' := by
  induction filled generalizing filled' with
  | nil =>
    cases filled' with
    | nil => exact ⟨rfl, same⟩
    | cons piece rest => exact absurd pieces'.long (same ▸ not_lt.mpr pieces.fits)
  | cons piece rest ih =>
    cases filled' with
    | nil => exact absurd pieces.long (same ▸ not_lt.mpr pieces'.fits)
    | cons piece' rest' =>
      obtain ⟨full, others⟩ := List.forall_mem_cons.mp pieces.full
      obtain ⟨full', others'⟩ := List.forall_mem_cons.mp pieces'.full
      simp only [content, List.flatten_cons, List.append_assoc] at same
      obtain ⟨rfl, behind⟩ := List.append_inj same (full.trans full'.symm)
      obtain ⟨rfl, rfl⟩ := ih ⟨others, pieces.fits, fun _ => pieces.started (List.cons_ne_nil _ _)⟩
        ⟨others', pieces'.fits, fun _ => pieces'.started (List.cons_ne_nil _ _)⟩ behind
      exact ⟨rfl, rfl⟩

/-- The datagrams depend on the bytes, not on the calls that put them. -/
theorem putAll_flatten (puts : List Bytes) : init.putAll puts = init.putAll [puts.flatten] := by
  obtain ⟨filled, last, pieces, bytes, result⟩ := putAll_pieces puts
  obtain ⟨filled', last', pieces', bytes', result'⟩ := putAll_pieces [puts.flatten]
  obtain ⟨rfl, rfl⟩ := pieces.unique pieces' (by simp [bytes, bytes'])
  rw [result, result']

/-! ## The datagrams -/

def fragment (msgID : MsgId) (last : Bool) (seqNo : Nat) (piece : Bytes) : Bytes :=
  (OutPacket.plain piece).makeHeader last seqNo msgID ++ piece

variable (msgID : MsgId)

theorem sendFilled_plain (filled : List Bytes) (seqNo : Nat) :
    sendFilled msgID (filled.map OutPacket.plain) seqNo none
      = filled.mapIdx fun i piece => fragment msgID false (seqNo + i) piece := by
  induction filled generalizing seqNo with
  | nil => rfl
  | cons piece rest ih =>
    rw [List.map_cons, sendFilled, ih, List.mapIdx_cons, Nat.add_zero]
    simp only [Nat.add_assoc, Nat.add_comm 1]
    rfl

theorem sendMsg_short (some' : last ≠ []) : (ofPieces [] last).sendMsg msgID none = [last] := by
  have filled : ¬ (ofPieces [] last).headPacket.empty = true := by
    intro empty
    exact some' ((OutPacket.empty_plain last).mp empty)
  rw [sendMsg, if_neg filled]
  rfl

theorem sendMsg_long (pieces : Pieces filled last) (more : filled ≠ []) :
    (ofPieces filled last).sendMsg msgID none
      = (filled.mapIdx fun i piece => fragment msgID false i piece)
        ++ [fragment msgID true filled.length last] := by
  obtain ⟨piece, rest, shape⟩ := List.exists_cons_of_ne_nil more
  have nonempty : ¬ (ofPieces filled last).headPacket.empty = true := by
    rw [shape]
    intro empty
    have nothing := (OutPacket.empty_plain piece).mp empty
    have size := pieces.full piece (by rw [shape]; exact List.mem_cons_self)
    rw [nothing] at size
    cases size
  have long : (ofPieces filled last).filled ≠ [] := by
    rw [shape]
    exact List.cons_ne_nil _ _
  rw [sendMsg, if_neg nonempty, if_neg long]
  simp only [ofPieces, sendFilled_plain, Nat.zero_add, List.length_map, OutPacket.data_plain]
  rfl

end OutMsg
end Condor.Cedar
