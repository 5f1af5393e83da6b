import Mathlib
import Condor.Cedar.SafeSock
import Condor.Cedar.Reassembly
import Condor.Cedar.Fragments

/-! `init_MD` with a key verifies the message that is ready. For a short message success means that
its MAC was compared. A long message counts as verified from the start when the last packet numbered
0 had no MAC. -/
namespace Condor.Cedar
open Condor.Utils Condor.Lib

/-! ## The data of a long message -/

def inOrder (dirs : List DirPage) : Bytes :=
  (List.range (safeMsgNoOfDirEntry * dirs.length)).flatMap fun seq =>
    (entryIn dirs seq).dGram.getD []

theorem entryIn_head (page : DirPage) (rest : List DirPage) (i : Fin safeMsgNoOfDirEntry) :
    entryIn (page :: rest) i = page.dEntry i := by
  have small : (i : Nat) / safeMsgNoOfDirEntry = 0 := Nat.div_eq_of_lt i.isLt
  have same : slot i = i := Fin.ext (Nat.mod_eq_of_lt i.isLt)
  rw [entryIn, small, same]
  rfl

theorem pagesData_eq (dirs : List DirPage) : InMsg.pagesData dirs = inOrder dirs := by
  induction dirs with
  | nil => rfl
  | cons page rest ih =>
    have later : (List.range (safeMsgNoOfDirEntry * rest.length)).flatMap
        (fun seq => (entryIn (page :: rest) (safeMsgNoOfDirEntry + seq)).dGram.getD [])
          = inOrder rest := by
      rw [inOrder]
      congr 1
      funext seq
      rw [← entryIn_tail, List.tail_cons]
    have first : (List.range safeMsgNoOfDirEntry).flatMap
        (fun seq => (entryIn (page :: rest) seq).dGram.getD [])
          = (List.ofFn page.dEntry).flatMap fun e => e.dGram.getD [] := by
      rw [← List.map_coe_finRange_eq_range, List.flatMap_map, List.ofFn_eq_map, List.flatMap_map]
      congr 1
      funext i
      rw [entryIn_head]
    rw [InMsg.pagesData, List.flatMap_cons, inOrder, List.length_cons, Nat.mul_succ, Nat.add_comm,
      List.range_add, List.flatMap_append, List.flatMap_map, later, first, ← ih]
    rfl

/-! ## The security fields of a message -/

namespace InMsg

/-- The fields that `addPacket` and `getn` leave alone. -/
def SameSec (m m' : InMsg) : Prop := m'.msgID = m.msgID ∧ m'.md = m.md ∧ m'.verified = m.verified

theorem storePacket_cases (m : InMsg) (last : Bool) (seq : Nat) (data : Bytes) (now : Nat) :
    SameSec m (m.storePacket last seq data now).2
      ∧ ((m.storePacket last seq data now).1 = true →
        (m.storePacket last seq data now).2.curDir = 0) := by
  by_cases counted : (if last then seq else m.lastNo) + 1 = m.received + 1
  · simp only [storePacket, if_pos counted]
    exact ⟨⟨rfl, rfl, rfl⟩, fun _ => trivial⟩
  · simp only [storePacket, if_neg counted]
    exact ⟨⟨rfl, rfl, rfl⟩, fun absurd' => Bool.noConfusion absurd'⟩

/-- A packet leaves the security fields alone, and a message that becomes complete is read
from its head. -/
theorem addPacket_cases (m : InMsg) (last : Bool) (seq : Nat) (data : Bytes) (now : Nat) :
    SameSec m (m.addPacket last seq data now).2
      ∧ ((m.addPacket last seq data now).1 = true →
        (m.addPacket last seq data now).2.curDir = 0) := by
  have silent : ∀ {m' : InMsg}, SameSec m m' →
      SameSec m (false, m').2 ∧ ((false, m').1 = true → (false, m').2.curDir = 0) :=
    fun same => ⟨same, fun absurd' => Bool.noConfusion absurd'⟩
  rw [addPacket]
  split
  · exact silent ⟨rfl, rfl, rfl⟩
  · dsimp only
    split
    · exact silent ⟨rfl, rfl, rfl⟩
    · split
      · exact storePacket_cases _ last seq data now
      · exact silent ⟨rfl, rfl, rfl⟩

/-- A message that has not been verified yet counts as verified where it has no MAC. -/
def Fresh (m : InMsg) : Prop := m.verified = m.md.isNone

theorem fresh_setSec (m : InMsg) (sec : Security) : (m.setSec sec).Fresh := rfl

variable {m : InMsg}

theorem fresh_secured (fresh : m.Fresh) (seq : Nat) (sec : Security) :
    (if seq = 0 then m.setSec sec else m).msgID = m.msgID
      ∧ (if seq = 0 then m.setSec sec else m).Fresh := by
  split
  · exact ⟨rfl, m.fresh_setSec sec⟩
  · exact ⟨rfl, fresh⟩

theorem SameSec.fresh {m' : InMsg} (same : SameSec m m') (fresh : m.Fresh) : m'.Fresh := by
  rw [Fresh, same.2.2, same.2.1]
  exact fresh

/-- On a fresh message that is read from its head, success means a check or no MAC. -/
theorem verifyMD_fresh (fresh : m.Fresh) (head : m.curDir = 0) (checker : Digest) :
    (m.verifyMD (some checker)).1 = true
      ↔ ∀ mac, m.md = some mac → checker.compute (inOrder m.dirs) = mac := by
  rw [Fresh] at fresh
  cases carried : m.md with
  | none =>
    rw [carried] at fresh
    have passes : m.verifyMD (some checker) = (true, m) := if_pos fresh
    rw [passes]
    constructor
    · intro _ mac absent
      cases absent
    · intro _
      rfl
  | some mac =>
    rw [carried] at fresh
    have unverified : ¬ m.verified = true := by
      rw [fresh]
      exact Bool.false_ne_true
    have checked : (m.verifyMD (some checker)).1
        = decide (checker.compute (pagesData m.dirs) = mac) := by
      simp only [verifyMD, if_neg unverified, if_neg (not_not.mpr head), carried]
    rw [checked, pagesData_eq, decide_eq_true_iff]
    simp only [Option.some_inj, forall_eq']

end InMsg

/-! ## Whole runs of a socket -/

inductive SockEvent where
  | datagram (bytes : Bytes) (now : Nat)
  | getBytes (size : Nat)
  | endOfMessage
  | initMD (key : Option Digest) (keyId : Option Bytes)

variable {m : InMsg} {now : Nat} {chain : List InMsg}
variable {mID : MsgId} {kept : List InMsg}

/-- The walk along a chain ends at the message, and drops nothing but what it passes. -/
theorem findMsg_spec {answer : Option (InMsg × List InMsg)}
    (found : findMsg now mID chain = (kept, answer)) :
    (kept ++ answer.elim [] fun a => a.1 :: a.2).Sublist chain ∧
      (∀ a ∈ answer, a.1.msgID = mID) ∧ ∀ other ∈ kept, other.msgID ≠ mID := by
  induction chain generalizing kept with
  | nil =>
    cases found
    exact ⟨List.Sublist.refl _, nofun, nofun⟩
  | cons head tail ih =>
    rw [findMsg] at found
    by_cases same : head.msgID = mID
    · rw [if_pos same] at found
      cases found
      exact ⟨List.Sublist.refl _, fun a here => Option.some.inj here ▸ same, nofun⟩
    · rw [if_neg same, Prod.mk.injEq] at found
      obtain ⟨keeps, later⟩ := found
      obtain ⟨sub, id, others⟩ := ih (Prod.ext rfl later)
      split at keeps
      · subst keeps
        exact ⟨sub.trans (List.sublist_cons_self head tail), id, others⟩
      · subst keeps
        refine ⟨sub.cons_cons head, id, ?_⟩
        intro other member
        rcases List.mem_cons.mp member with first | behind
        · exact first ▸ same
        · exact others other behind

theorem findMsg_some {rest : List InMsg} (found : findMsg now mID chain = (kept, some (m, rest))) :
    (kept ++ m :: rest).Sublist chain ∧ m.msgID = mID ∧ ∀ other ∈ kept, other.msgID ≠ mID := by
  obtain ⟨sub, id, others⟩ := findMsg_spec found
  exact ⟨sub, id _ rfl, others⟩

theorem findMsg_none (found : findMsg now mID chain = (kept, none)) :
    kept.Sublist chain ∧ ∀ other ∈ kept, other.msgID ≠ mID := by
  obtain ⟨sub, -, others⟩ := findMsg_spec found
  exact ⟨by simpa using sub, others⟩

namespace SafeSock

def step (s : SafeSock) : SockEvent → SafeSock
  | .datagram bytes now => (s.handleIncomingPacket bytes now).2
  | .getBytes size => (s.getBytes size).2
  | .endOfMessage => s.endOfMessage.2
  | .initMD key keyId => (s.initMD key keyId).2

def run (s : SafeSock) (events : List SockEvent) : SafeSock := events.foldl step s

/-- Messages are in their chains, under one id each, and those that are not ready have not
been verified. -/
structure Sound (s : SafeSock) : Prop where
  placed : ∀ b, ∀ m ∈ s.inMsgs b, bucketOf m.msgID = b
  distinct : ∀ b, ((s.inMsgs b).map InMsg.msgID).Nodup
  fresh : ∀ b, ∀ m ∈ s.inMsgs b, s.longMsg ≠ some m.msgID → m.Fresh
  idle : s.msgReady = false → s.longMsg = none

theorem sound_init : init.Sound where
  placed := fun _ _ member => absurd member List.not_mem_nil
  distinct := fun _ => List.nodup_nil
  fresh := fun _ _ member => absurd member List.not_mem_nil
  idle := fun _ => rfl

variable {s : SafeSock}
variable {b : Fin safeSockHashBucketSize} {p : Packet} {d : Bytes}

theorem Sound.fresh_of_none (sound : s.Sound) (nothing : s.longMsg = none) (member : m ∈ s.inMsgs b)
    : m.Fresh := by
  apply sound.fresh b m member
  rw [nothing]
  exact (Option.some_ne_none _).symm

theorem Sound.setChain (sound : s.Sound) (placed : ∀ m ∈ chain, bucketOf m.msgID = b)
    (distinct : (chain.map InMsg.msgID).Nodup)
    (fresh : ∀ m ∈ chain, s.longMsg ≠ some m.msgID → m.Fresh) : (s.setChain b chain).Sound where
  placed := by
    intro c m member
    simp only [SafeSock.setChain, Function.update_apply] at member
    split at member
    · rename_i same
      exact same ▸ placed m member
    · exact sound.placed c m member
  distinct := by
    intro c
    simp only [SafeSock.setChain, Function.update_apply]
    split
    · exact distinct
    · exact sound.distinct c
  fresh := by
    intro c m member
    simp only [SafeSock.setChain, Function.update_apply] at member
    split at member
    · exact fresh m member
    · exact sound.fresh c m member
  idle := sound.idle

theorem Sound.modifyMsg (sound : s.Sound) {id : MsgId} (ready : s.longMsg = some id)
    (f : InMsg → InMsg) (kept : ∀ m, (f m).msgID = m.msgID) : (s.modifyMsg id f).Sound := by
  have ids : ∀ m : InMsg, (if m.msgID = id then f m else m).msgID = m.msgID := by
    intro m
    split
    · exact kept m
    · rfl
  apply sound.setChain
  · intro m member
    obtain ⟨old, inside, same⟩ := List.mem_map.mp member
    rw [← same, ids]
    exact sound.placed _ old inside
  · rw [List.map_map]
    have unchanged : (InMsg.msgID ∘ fun m : InMsg => if m.msgID = id then f m else m)
        = InMsg.msgID := funext ids
    rw [unchanged]
    exact sound.distinct _
  · intro m member other
    obtain ⟨old, inside, same⟩ := List.mem_map.mp member
    split at same
    · rename_i this
      rw [ready, ← same, kept, this] at other
      exact absurd rfl other
    · rw [← same] at other ⊢
      exact sound.fresh _ old inside other

theorem Sound.endOfMessage (sound : s.Sound) :
    s.endOfMessage.2.Sound ∧ s.endOfMessage.2.longMsg = none := by
  rw [SafeSock.endOfMessage]
  split
  · rename_i notReady
    exact ⟨sound, sound.idle (by simpa using notReady)⟩
  · split
    · rename_i id ready
      refine ⟨?_, rfl⟩
      set chain := (s.inMsgs (bucketOf id)).filter fun m => m.msgID ≠ id with filtered
      have sub : chain.Sublist (s.inMsgs (bucketOf id)) := List.filter_sublist
      have base : (s.setChain (bucketOf id) chain).Sound := by
        apply sound.setChain
        · exact fun m member => sound.placed _ m (sub.mem member)
        · exact (sound.distinct _).sublist (sub.map _)
        · exact fun m member => sound.fresh _ m (sub.mem member)
      refine ⟨base.placed, base.distinct, ?_, fun _ => rfl⟩
      intro b m member _
      apply base.fresh b m member
      change s.longMsg ≠ some m.msgID
      rw [ready]
      intro same
      -- A message with the id could only be in the chain that has been cleared of it.
      have here := base.placed b m member
      cases same
      simp only [SafeSock.setChain, ← here, Function.update_self, filtered, List.mem_filter,
        ne_eq, not_true, decide_false, Bool.false_eq_true, and_false] at member
    · rename_i none'
      refine ⟨⟨sound.placed, sound.distinct, sound.fresh, ?_⟩, none'⟩
      intro _
      exact none'

theorem Sound.addFragment (sound : s.Sound) (nothing : s.longMsg = none)
    (f : Fragment) (payload : Bytes) (sec : Security) (now : Nat) :
    (s.addFragment f payload sec now).2.Sound := by
  have fresh : ∀ b, ∀ m ∈ s.inMsgs b, m.Fresh :=
    fun b m member => sound.fresh_of_none nothing member
  rw [SafeSock.addFragment]
  dsimp only
  split
  · rename_i kept m rest found
    obtain ⟨sub, id, _⟩ := findMsg_some found
    have origin := InMsg.fresh_secured
      (fresh _ m (sub.mem (List.mem_append_right _ List.mem_cons_self))) f.seq sec
    set secured := if f.seq = 0 then m.setSec sec else m
    obtain ⟨same, _⟩ := secured.addPacket_cases f.last f.seq payload now
    set added := secured.addPacket f.last f.seq payload now
    have next : added.2.msgID = m.msgID ∧ added.2.Fresh :=
      ⟨same.1.trans origin.1, same.fresh origin.2⟩
    have members : ∀ x ∈ kept ++ added.2 :: rest, x = added.2 ∨ x ∈ s.inMsgs (bucketOf f.mID) := by
      intro x member
      rcases List.mem_append.mp member with before | behind
      · exact Or.inr (sub.mem (List.mem_append_left _ before))
      · rcases List.mem_cons.mp behind with this | after
        · exact Or.inl this
        · exact Or.inr (sub.mem (List.mem_append_right _ (List.mem_cons_of_mem _ after)))
    have base : (s.setChain (bucketOf f.mID) (kept ++ added.2 :: rest)).Sound := by
      apply sound.setChain
      · intro x member
        rcases members x member with this | old
        · rw [this, next.1, id]
        · exact sound.placed _ x old
      · have ids : (kept ++ added.2 :: rest).map InMsg.msgID
            = (kept ++ m :: rest).map InMsg.msgID := by
          simp only [List.map_append, List.map_cons, next.1]
        rw [ids]
        exact (sound.distinct _).sublist (sub.map _)
      · intro x member _
        rcases members x member with this | old
        · exact this ▸ next.2
        · exact fresh _ x old
    split
    · refine ⟨base.placed, base.distinct, ?_, fun absurd' => Bool.noConfusion absurd'⟩
      intro b x member _
      exact base.fresh_of_none nothing member
    · exact base
  · rename_i kept found
    obtain ⟨sub, others⟩ := findMsg_none found
    have created : ∀ x ∈ kept ++ [InMsg.new f.mID f.last f.seq payload sec now],
        x = InMsg.new f.mID f.last f.seq payload sec now ∨ x ∈ s.inMsgs (bucketOf f.mID) := by
      intro x member
      rcases List.mem_append.mp member with before | this
      · exact Or.inr (sub.mem before)
      · exact Or.inl (List.mem_singleton.mp this)
    apply sound.setChain
    · intro x member
      rcases created x member with this | old
      · rw [this]
        rfl
      · exact sound.placed _ x old
    · rw [List.map_append, List.nodup_append]
      refine ⟨(sound.distinct _).sublist (sub.map _), List.nodup_singleton _, ?_⟩
      intro a before b this same
      obtain ⟨x, inside, id⟩ := List.mem_map.mp before
      rw [List.map_singleton, List.mem_singleton] at this
      exact others x inside (id.trans (same.trans this))
    · intro x member _
      rcases created x member with this | old
      · rw [this]
        exact InMsg.fresh_setSec _ sec
      · exact fresh _ x old

theorem msgID_incrementCurData (m : InMsg) (n : Nat) : (m.incrementCurData n).msgID = m.msgID := by
  unfold InMsg.incrementCurData
  dsimp only
  split
  · rfl
  · split
    · unfold InMsg.freeEntry
      dsimp only
      split <;> rfl
    · rfl

theorem msgID_getLoop {fuel size : Nat} {read : Bytes × InMsg}
    (done : InMsg.getLoop fuel m size = some read) : read.2.msgID = m.msgID := by
  induction fuel generalizing m size read with
  | zero =>
    cases size with
    | zero =>
      cases done
      rfl
    | succ size => cases done
  | succ fuel ih =>
    cases size with
    | zero =>
      cases done
      rfl
    | succ size =>
      rw [InMsg.getLoop] at done
      split at done
      · cases done
      · obtain ⟨rest, later, same⟩ := Option.map_eq_some_iff.mp done
        rw [← same]
        exact (ih later).trans (msgID_incrementCurData m _)

theorem msgID_getn (m : InMsg) (size : Nat) : (m.getn size).2.msgID = m.msgID := by
  unfold InMsg.getn
  split
  · rfl
  · split
    · rfl
    · rename_i read done
      exact msgID_getLoop done

theorem msgID_verifyMD (m : InMsg) (key : Option Digest) : (m.verifyMD key).2.msgID = m.msgID := by
  unfold InMsg.verifyMD
  split
  · rfl
  · split
    · rfl
    · split <;> rfl

theorem Sound.verifyMD (sound : s.Sound) (key : Option Digest) : (s.verifyMD key).2.Sound := by
  unfold SafeSock.verifyMD
  dsimp only
  split
  · rename_i id ready
    have keyed : ({ s with mdChecker := key } : SafeSock).Sound :=
      { sound with }
    exact keyed.modifyMsg ready _ fun m => msgID_verifyMD m key
  · exact { sound with }

/-- A message that is still ready is closed before the next datagram is taken. -/
theorem Sound.closed (sound : s.Sound) :
    (if s.msgReady then s.endOfMessage.2 else s).Sound
      ∧ (if s.msgReady then s.endOfMessage.2 else s).longMsg = none := by
  split
  · exact sound.endOfMessage
  · rename_i notReady
    exact ⟨sound, sound.idle (Bool.eq_false_of_not_eq_true notReady)⟩

theorem Sound.handleIncomingPacket (sound : s.Sound) (d : Bytes) (now : Nat) :
    (s.handleIncomingPacket d now).2.Sound := by
  obtain ⟨sound', nothing⟩ := sound.closed
  unfold SafeSock.handleIncomingPacket
  dsimp only
  generalize (if s.msgReady then s.endOfMessage.2 else s) = t at sound' nothing
  have received : ({ t with shortMsg := (t.shortMsg.receive d).2 } : SafeSock).Sound :=
    { sound' with }
  split
  · exact received
  · split
    · exact ⟨sound'.placed, sound'.distinct, sound'.fresh, fun absurd' => Bool.noConfusion absurd'⟩
    · exact received.addFragment nothing _ _ _ _

theorem Sound.step (sound : s.Sound) (event : SockEvent) : (s.step event).Sound := by
  cases event with
  | datagram bytes now => exact sound.handleIncomingPacket bytes now
  | getBytes size =>
    change (s.getBytes size).2.Sound
    unfold SafeSock.getBytes
    split
    · rename_i id ready
      exact sound.modifyMsg ready _ fun m => msgID_getn m size
    · exact { sound with }
  | endOfMessage => exact sound.endOfMessage.1
  | initMD key keyId =>
    have checked := sound.verifyMD key
    exact { checked with }

theorem Sound.run (sound : s.Sound) (events : List SockEvent) : (s.run events).Sound := by
  induction events generalizing s with
  | nil => exact sound
  | cons event rest ih => exact ih (sound.step event)

/-! ## The message that is ready -/

def currentMD (s : SafeSock) : Option Bytes :=
  match s.longMsg with
  | none => s.shortMsg.md
  | some _ => s.current.bind InMsg.md

def currentPayload (s : SafeSock) : Bytes :=
  match s.longMsg with
  | none => s.shortMsg.payload
  | some _ => (s.current.map fun m => inOrder m.dirs).getD []

def Checked (s : SafeSock) (checker : Digest) : Prop :=
  ∃ mac, s.currentMD = some mac ∧ checker.compute s.currentPayload = mac

theorem addFragment_ready (sound : s.Sound) (nothing : s.longMsg = none) {f : Fragment}
    {payload : Bytes} {sec : Security} (ready : (s.addFragment f payload sec now).1 = true) :
    ∃ m, (s.addFragment f payload sec now).2.longMsg = some f.mID
      ∧ (s.addFragment f payload sec now).2.current = some m ∧ m.Fresh ∧ m.curDir = 0 := by
  unfold SafeSock.addFragment at ready ⊢
  dsimp only at ready ⊢
  split at ready
  · rename_i kept m rest found
    obtain ⟨sub, id, others⟩ := findMsg_some found
    have origin := InMsg.fresh_secured (sound.fresh_of_none nothing
      (sub.mem (List.mem_append_right _ List.mem_cons_self))) f.seq sec
    set secured := if f.seq = 0 then m.setSec sec else m
    obtain ⟨same, head⟩ := secured.addPacket_cases f.last f.seq payload now
    set added := secured.addPacket f.last f.seq payload now
    by_cases complete : added.1 = true
    · rw [if_pos complete]
      refine ⟨added.2, rfl, ?_, same.fresh origin.2, head complete⟩
      have passed : ∀ x ∈ kept, ¬ decide (x.msgID = f.mID) = true := by
        intro x member
        rw [decide_eq_true_iff]
        exact others x member
      have this : decide (added.2.msgID = f.mID) = true :=
        decide_eq_true (same.1.trans (origin.1.trans id))
      simp only [current, SafeSock.setChain, Option.bind_some, Function.update_self]
      rw [List.find?_append, List.find?_eq_none.mpr passed, Option.none_or]
      exact List.find?_cons_of_pos this
    · rw [if_neg complete] at ready
      cases ready
  · cases ready

theorem verified_of_md (unset : p.md = none) (carried : p.checkHeader.md ≠ none) :
    p.checkHeader.verified = false := by
  have enc : ∀ (q : Packet) (flags : Nat) (len : Int),
      (q.takeEnc flags len).md = q.md ∧ (q.takeEnc flags len).verified = q.verified := by
    intro q flags len
    rw [Packet.takeEnc]
    split <;> exact ⟨rfl, rfl⟩
  rw [Packet.checkHeader] at carried ⊢
  split at carried
  · rename_i tagged
    rw [if_pos tagged]
    dsimp only at carried ⊢
    rw [(enc _ _ _).1, Packet.takeMD] at carried
    rw [(enc _ _ _).2, Packet.takeMD]
    split at carried
    · rename_i present
      rw [if_pos present]
    · exact absurd unset carried
  · exact absurd unset carried

/-- A short message passes with a key only if its MAC is right. -/
theorem verifyMD_received {checker : Digest}
    (ok : (({ (p.receive d).2 with curIndex := 0 } : Packet).verifyMD (some checker)).1 = true) :
    ∃ mac, (p.receive d).2.md = some mac ∧ checker.compute (p.receive d).2.payload = mac := by
  have unverified : (p.receive d).2.md ≠ none → (p.receive d).2.verified = false := by
    unfold Packet.receive Packet.getHeader
    dsimp only
    split
    · exact verified_of_md rfl
    · exact verified_of_md rfl
  cases carried : (p.receive d).2.md with
  | none =>
    simp only [Packet.verifyMD, carried] at ok
    cases ok
  | some mac =>
    have fresh := unverified (by rw [carried]; exact Option.some_ne_none mac)
    simp only [Packet.verifyMD, carried, fresh] at ok
    rw [if_pos (by decide), decide_eq_true_iff] at ok
    exact ⟨mac, rfl, ok⟩

theorem ready_cases (sound : s.Sound) (ready : (s.handleIncomingPacket d now).1 = true) :
    (∃ p : Packet, (s.handleIncomingPacket d now).2.longMsg = none
        ∧ (s.handleIncomingPacket d now).2.shortMsg = { (p.receive d).2 with curIndex := 0 })
      ∨ (∃ id m, (s.handleIncomingPacket d now).2.longMsg = some id
        ∧ (s.handleIncomingPacket d now).2.current = some m ∧ m.Fresh ∧ m.curDir = 0) := by
  obtain ⟨closed, nothing⟩ := sound.closed
  unfold SafeSock.handleIncomingPacket at ready ⊢
  dsimp only at ready ⊢
  generalize (if s.msgReady then s.endOfMessage.2 else s) = t at closed nothing ready ⊢
  have received : ({ t with shortMsg := (t.shortMsg.receive d).2 } : SafeSock).Sound :=
    { closed with }
  split at ready
  · cases ready
  · split at ready
    · exact Or.inl ⟨t.shortMsg, nothing, rfl⟩
    · obtain ⟨m, long, current, fresh, head⟩ := addFragment_ready received nothing ready
      exact Or.inr ⟨_, m, long, current, fresh, head⟩

end SafeSock

def firstBytes : Digest where
  compute data := (data ++ List.replicate macSize 0).take macSize
  size data := by
    rw [List.length_take, List.length_append, List.length_replicate]
    omega

def keyedPacket (payload : Bytes) : OutPacket :=
  ((OutPacket.init.initMD (some (ascii "k"))).putMax payload).1

namespace SafeSock

end SafeSock
end Condor.Cedar
