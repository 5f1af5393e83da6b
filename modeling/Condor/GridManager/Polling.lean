import Condor.GridManager.RequestBook

/-! `poll` absorbs the result lines and then serves the waiting queues. Neither loop can fail where
the bookkeeping is sound and no removal hits an entry that is still needed. -/
namespace Condor.GridManager.GahpServer
open Condor.Lib Condor.Utils

structure Answered (ids : List Int) (s t : GahpServer) : Prop where
  waiting : t.waiting = s.waiting
  maximum : t.maxPendingRequests = s.maxPendingRequests
  written : t.written = s.written
  lookup : ∀ id, t.requestTable.lookup id = if id ∈ ids then none else s.requestTable.lookup id
  outstanding : ∀ id, id ∈ t.outstanding ↔ id ∈ s.outstanding ∧ id ∉ ids
  clients : ∀ k, (s.clients k).pendingReqId ∉ ids → t.clients k = s.clients k

namespace Answered
variable {s t u : GahpServer}

theorem refl (s : GahpServer) : Answered [] s s where
  waiting := rfl
  maximum := rfl
  written := rfl
  lookup := fun _ => (if_neg List.not_mem_nil).symm
  outstanding := fun _ => by simp
  clients := fun _ _ => rfl

variable {ids : List Int}

theorem cons {id : Int} (first : Answered [id] s t) (rest : Answered ids t u) :
    Answered (id :: ids) s u where
  waiting := rest.waiting.trans first.waiting
  maximum := rest.maximum.trans first.maximum
  written := rest.written.trans first.written
  lookup := by
    intro id'
    rw [rest.lookup, first.lookup]
    by_cases later : id' ∈ ids
    · rw [if_pos later, if_pos (List.mem_cons_of_mem _ later)]
    · rw [if_neg later]
      simp only [List.mem_cons, later, or_false, List.not_mem_nil]
  outstanding := by
    intro id'
    rw [rest.outstanding, first.outstanding]
    simp only [List.mem_cons, List.not_mem_nil, or_false, not_or, and_assoc]
  clients := by
    intro k unanswered
    rw [List.mem_cons, not_or] at unanswered
    have same := first.clients k (by simpa using unanswered.1)
    rw [rest.clients k (same ▸ unanswered.2), same]

theorem queued (h : Answered ids s t) : t.queued = s.queued := by
  simp only [GahpServer.queued, h.waiting]

end Answered

namespace Sound
variable {s t : GahpServer} {loose : Option Nat}

theorem answered_forget (h : Sound loose s) (id : Int)
    (clients : ∀ k, (s.clients k).pendingReqId ≠ id → t.clients k = s.clients k)
    (waiting : t.waiting = s.waiting) (maximum : t.maxPendingRequests = s.maxPendingRequests)
    (written : t.written = s.written) (table : t.requestTable = s.requestTable)
    (outstanding : t.outstanding = s.outstanding) : Answered [id] s (t.forget id) where
  waiting := waiting
  maximum := maximum
  written := written
  lookup := by
    intro id'
    change (t.requestTable.remove id).2.lookup id' = _
    rw [table, (h.chained.remove id).2 id']
    simp only [List.mem_singleton]
  outstanding := by
    intro id'
    change id' ∈ t.outstanding.erase id ↔ _
    rw [outstanding, (List.Nodup.of_append_left h.once).mem_erase_iff, List.mem_singleton, and_comm]
  clients := fun k other => clients k (by simpa using other)

theorem absorb (h : Sound none s) {result : List String}
    (unqueued : resultReqId result ∉ s.queued) :
    ∃ t, s.absorb result = .ok t ∧ Sound none t ∧ Answered [resultReqId result] s t := by
  generalize named : resultReqId result = id at unqueued
  simp only [GahpServer.absorb, named]
  by_cases bad : id = 0
  · rw [if_pos bad]
    subst bad
    refine ⟨s, rfl, h, ⟨rfl, rfl, rfl, ?_, ?_, fun _ _ => rfl⟩⟩
    · intro id'
      by_cases here : id' = 0
      · rw [here, h.zero_free, ite_self]
      · rw [if_neg (by simpa using here)]
    · intro id'
      constructor
      · intro sent
        exact ⟨sent, by simpa using h.ne_zero_of_tracked (List.mem_append_left _ sent)⟩
      · exact And.left
  · rw [if_neg bad]
    cases found : s.entry id with
    | none =>
      have unowned : ∀ k, (s.clients k).pendingReqId ≠ id := by
        intro k owned
        have present := h.pending_entry k (owned ▸ bad)
        rw [owned] at present
        simp [entry, present] at found
      exact ⟨_, rfl, h.forget unqueued unowned,
        h.answered_forget id (fun _ _ => rfl) rfl rfl rfl rfl rfl⟩
    | some k =>
      have present := Option.join_eq_some_iff.mp found
      have owned := h.entry_pending id k present
      have sent : (s.clients k).pendingSubmittedToGahp = true := by
        by_contra unsent
        exact unqueued (owned ▸ h.unsubmitted k (Option.some_ne_none k) (owned ▸ bad)
            (eq_false_of_ne_true unsent))
      simp only [sent, if_true]
      refine ⟨_, rfl, ?_, ?_⟩
      · have answered := h.deliver result sent
        rwa [owned] at answered
      · refine h.answered_forget id ?_ rfl rfl rfl rfl rfl
        intro k' other
        have distinct : k' ≠ k := by
          rintro rfl
          exact other owned
        exact Function.update_of_ne distinct _ _

theorem absorb_all (h : Sound none s) {results : List (List String)}
    (unqueued : ∀ result ∈ results, resultReqId result ∉ s.queued) :
    ∃ t, results.foldlM GahpServer.absorb s = .ok t ∧ Sound none t ∧
      Answered (results.map resultReqId) s t := by
  induction results generalizing s with
  | nil => exact ⟨s, rfl, h, .refl s⟩
  | cons result results ih =>
    obtain ⟨u, absorbed, sound, first⟩ := h.absorb (unqueued result List.mem_cons_self)
    have later : ∀ result' ∈ results, resultReqId result' ∉ u.queued := by
      intro result' member
      rw [first.queued]
      exact unqueued result' (List.mem_cons_of_mem _ member)
    obtain ⟨t, folded, sound', rest⟩ := ih sound later
    refine ⟨t, ?_, sound', first.cons rest⟩
    rw [List.foldlM_cons, absorbed]
    exact folded

end Sound

def requestLine (s : GahpServer) (id : Int) : Option (String × Int × Option String) :=
  (s.entry id).bind fun k =>
    (s.clients k).pendingCommand.map fun command => (command, id, (s.clients k).pendingArgs)

variable {id resultId : Int} {s t : GahpServer}

theorem takeWaiting_spec (taken : s.takeWaiting = some (id, t)) :
    s.queued = id :: t.queued ∧ t = { s with waiting := t.waiting } ∧
      ∀ prio, t.waiting prio <:+ s.waiting prio := by
  simp only [takeWaiting] at taken
  split at taken
  · next rest high =>
      cases taken
      refine ⟨by simp [queued, high], rfl, fun prio => ?_⟩
      by_cases here : prio = .high
      · subst here
        simp [high]
      · simp [here]
  · next rest high medium =>
      cases taken
      refine ⟨by simp [queued, high, medium], rfl, fun prio => ?_⟩
      by_cases here : prio = .medium
      · subst here
        simp [medium]
      · simp [here]
  · next rest high medium low =>
      cases taken
      refine ⟨by simp [queued, high, medium, low], rfl, fun prio => ?_⟩
      by_cases here : prio = .low
      · subst here
        simp [low]
      · simp [here]
  · cases taken

theorem queued_of_takeWaiting (none : s.takeWaiting = none) : s.queued = [] := by
  simp only [takeWaiting] at none
  split at none
  · cases none
  · cases none
  · cases none
  · next high medium low => simp [queued, high, medium, low]

structure Turn (id : Int) (s t : GahpServer) : Prop where
  free : s.numPendingRequests < s.maxPendingRequests
  order : s.queued = id :: t.queued
  lookup : ∀ id, t.requestTable.lookup id = s.requestTable.lookup id
  maximum : t.maxPendingRequests = s.maxPendingRequests
  lines : t.requestLine = s.requestLine
  written : t.written = s.written ++ (s.requestLine id).toList
  outstanding : t.outstanding = s.outstanding ++ [id].filter fun id => (s.entry id).isSome
  waiting : ∀ prio, t.waiting prio <:+ s.waiting prio

/-- What the loop changes: it takes the first `n` ids and writes the requests of
those that are not abandoned. -/
structure Served (s t : GahpServer) : Prop where
  lookup : ∀ id, t.requestTable.lookup id = s.requestTable.lookup id
  maximum : t.maxPendingRequests = s.maxPendingRequests
  taken : ∃ n, t.queued = s.queued.drop n ∧
    t.written = s.written ++ (s.queued.take n).filterMap s.requestLine ∧
    t.outstanding = s.outstanding ++ (s.queued.take n).filter fun id => (s.entry id).isSome
  waiting : ∀ prio, t.waiting prio <:+ s.waiting prio
  drained : t.numPendingRequests < t.maxPendingRequests → t.queued = []
  full : s.maxPendingRequests ≤ s.numPendingRequests → t = s

theorem Served.refl (drained : s.numPendingRequests < s.maxPendingRequests → s.queued = []) :
    Served s s where
  lookup := fun _ => rfl
  maximum := rfl
  taken := ⟨0, by simp⟩
  waiting := fun _ => List.suffix_rfl
  drained := drained
  full := fun _ => rfl

theorem Served.cons {u : GahpServer} (first : Turn id s u) (rest : Served u t) : Served s t where
  lookup := fun id => (rest.lookup id).trans (first.lookup id)
  maximum := rest.maximum.trans first.maximum
  taken := by
    obtain ⟨n, left, lines, sent⟩ := rest.taken
    have entries : u.entry = s.entry := funext fun id => congrArg Option.join (first.lookup id)
    refine ⟨n + 1, ?_, ?_, ?_⟩
    · rw [left, first.order, List.drop_succ_cons]
    · rw [lines, first.written, first.lines, first.order, List.take_succ_cons, List.append_assoc]
      cases line : s.requestLine id with
      | none => simp [line]
      | some line' => simp [line]
    · rw [sent, first.outstanding, entries, first.order, List.take_succ_cons, List.append_assoc]
      exact congrArg _ (List.filter_append [id] _).symm
  waiting := fun prio => (rest.waiting prio).trans (first.waiting prio)
  drained := rest.drained
  full := fun full => absurd first.free (not_lt.mpr full)

/-- No entry but a `NULL` one is at risk: the id that is removed is in no entry,
or no abandoned id waits. -/
def Quiet (resultId : Int) (s : GahpServer) : Prop :=
  s.requestTable.lookup resultId = none ∨ ∀ id ∈ s.queued, s.requestTable.lookup id ≠ some none

theorem Turn.quiet (turn : Turn id s t) (quiet : Quiet resultId s) : Quiet resultId t := by
  refine quiet.imp (turn.lookup resultId).trans fun live id' waits => ?_
  rw [turn.lookup]
  exact live id' (turn.order ▸ List.mem_cons_of_mem id waits)

namespace Sound
variable {s t : GahpServer}

theorem retable (h : Sound none s) {table : HashTable Int (Option Nat)} (chained : table.Chained)
    (same : ∀ id, table.lookup id = s.requestTable.lookup id) :
    Sound none { s with requestTable := table } :=
  { h with
    chained := chained
    zero_free := (same 0).trans h.zero_free
    pending_entry := fun k owns => (same _).trans (h.pending_entry k owns)
    entry_pending := fun id k found => h.entry_pending id k ((same id).symm.trans found)
    tracked := fun id member missing => h.tracked id member ((same id).symm.trans missing)
    fresh := fun unrotated id present =>
      h.fresh unrotated id fun missing => present ((same id).trans missing) }

variable {waiting : PrioLevel → List Int} {v : GahpServer}

theorem take_owned (h : Sound none s) {k : Nat}
    (order : s.queued = id :: { s with waiting := waiting }.queued)
    (owned : (s.clients k).pendingReqId = id) :
    Sound (some k) { s with waiting := waiting } := by
  have once := h.once
  rw [order] at once
  have apart := (List.nodup_middle.mp once)
  refine
    { h with
      tracked := ?_
      once := (List.nodup_cons.mp apart).2
      unsubmitted := ?_
      unplaced := ?_ }
  · intro id' member
    apply h.tracked id'
    rw [order]
    exact List.mem_append.mpr ((List.mem_append.mp member).imp_right (List.mem_cons_of_mem _))
  · intro k' tight owns unsent
    have waits := h.unsubmitted k' (Option.some_ne_none k') owns unsent
    rw [order] at waits
    refine (List.mem_cons.mp waits).resolve_left fun same => tight ?_
    exact congrArg some (h.owner_unique owns (same.trans owned.symm))
  · intro k' here
    cases here
    change (s.clients k).pendingReqId ≠ 0 ∧ (s.clients k).pendingReqId ∉ s.outstanding ++ _
    rw [owned]
    refine ⟨h.ne_zero_of_tracked ?_, (List.nodup_cons.mp apart).1⟩
    rw [order]
    exact List.mem_append_right _ List.mem_cons_self

theorem take_abandoned (h : Sound none s)
    (order : s.queued = id :: { s with waiting := waiting }.queued)
    (unowned : ∀ k, (s.clients k).pendingReqId ≠ id) :
    Sound none { s with waiting := waiting } := by
  have once := h.once
  rw [order] at once
  refine
    { h with
      tracked := ?_
      once := (List.nodup_cons.mp (List.nodup_middle.mp once)).2
      unsubmitted := ?_
      unplaced := nofun }
  · intro id' member
    apply h.tracked id'
    rw [order]
    exact List.mem_append.mpr ((List.mem_append.mp member).imp_right (List.mem_cons_of_mem _))
  · intro k' tight owns unsent
    have waits := h.unsubmitted k' tight owns unsent
    rw [order] at waits
    exact (List.mem_cons.mp waits).resolve_left (unowned k')

theorem requestLine_writeRequest (s : GahpServer) (k : Nat) (command : String) (now : Nat) :
    (s.writeRequest k command now).requestLine = s.requestLine := by
  have fields : ∀ k', ((s.writeRequest k command now).clients k').pendingCommand =
        (s.clients k').pendingCommand ∧
      ((s.writeRequest k command now).clients k').pendingArgs = (s.clients k').pendingArgs := by
    intro k'
    by_cases here : k' = k
    · simp [GahpServer.writeRequest, here]
    · simp [GahpServer.writeRequest, here]
  funext id
  unfold requestLine
  simp only [fields]
  rfl

/-- A waiting id with an owner is sent when there is a free slot. -/
theorem turn_owned (h : Sound none s) {k : Nat} (free : s.numPendingRequests < s.maxPendingRequests)
    (next : s.takeWaiting = some (id, v)) (found : v.entry id = some k) (now : Nat) :
    (v.clients k).pendingReqId = id ∧
      ∃ t, v.submit k .medium now = .ok t ∧ Sound none t ∧ Turn id s t := by
  obtain ⟨order, shape, shrink⟩ := takeWaiting_spec next
  generalize v.waiting = waiting at shape shrink
  subst shape
  have owned := h.entry_pending id k (Option.join_eq_some_iff.mp found)
  have loose := h.take_owned order owned
  obtain ⟨command, named⟩ := Option.ne_none_iff_exists'.mp (h.command k (loose.unplaced k rfl).1)
  change s.entry id = some k at found
  refine ⟨owned, _, ?_, loose.writeRequest command now free, ?_⟩
  · simp only [GahpServer.submit, named, if_neg (not_le.mpr free)]
  · refine ⟨free, order, fun _ => rfl, rfl, requestLine_writeRequest _ k command now, ?_,
      ?_, shrink⟩
    · simp only [requestLine, found, Option.bind_some, named, Option.map_some, Option.toList_some]
      rw [← owned]
      rfl
    · simp only [List.filter_cons, found, Option.isSome_some, if_true, List.filter_nil]
      rw [← owned]
      rfl

theorem abandoned_of_entry (h : Sound none s) (waits : id ∈ s.queued) (found : s.entry id = none) :
    s.requestTable.lookup id = some none := by
  cases entry : s.requestTable.lookup id with
  | none => exact absurd entry (h.tracked id (List.mem_append_right _ waits))
  | some owner =>
    simp only [GahpServer.entry, entry, Option.join_some] at found
    rw [found]

/-- An abandoned id is dropped; the removal must not hit another entry. -/
theorem turn_abandoned (h : Sound none s) (free : s.numPendingRequests < s.maxPendingRequests)
    (next : s.takeWaiting = some (id, v)) (found : v.entry id = none)
    (missing : s.requestTable.lookup resultId = none) :
    Sound none { v with requestTable := (v.requestTable.remove resultId).2 } ∧
      Turn id s { v with requestTable := (v.requestTable.remove resultId).2 } := by
  obtain ⟨order, shape, shrink⟩ := takeWaiting_spec next
  generalize v.waiting = waiting at shape shrink
  subst shape
  change s.entry id = none at found
  have waits : id ∈ s.queued := order ▸ List.mem_cons_self
  have unowned : ∀ k, (s.clients k).pendingReqId ≠ id := by
    intro k owned
    have mine := h.pending_entry k
      (owned ▸ h.ne_zero_of_tracked (List.mem_append_right _ waits))
    rw [owned, h.abandoned_of_entry waits found] at mine
    cases mine
  obtain ⟨chained, entries⟩ := h.chained.remove resultId
  have same : ∀ id', (s.requestTable.remove resultId).2.lookup id' = s.requestTable.lookup id' := by
    intro id'
    rw [entries]
    split
    · next here => rw [here, missing]
    · rfl
  refine ⟨(h.take_abandoned order unowned).retable chained same, free, order, same, rfl, ?_, ?_,
    ?_, shrink⟩
  · funext id'
    simp only [requestLine, GahpServer.entry, same]
  · simp [requestLine, found]
  · simp [found]

/-- The loop over the queues does not fail. -/
theorem sendWaiting (h : Sound none s) (quiet : Quiet resultId s) (now : Nat) {fuel : Nat}
    (enough : s.queued.length ≤ fuel) :
    ∃ t, GahpServer.sendWaiting resultId now fuel s = .ok t ∧ Sound none t ∧ Served s t := by
  induction fuel generalizing s with
  | zero =>
    refine ⟨s, rfl, h, .refl fun _ => ?_⟩
    exact List.eq_nil_of_length_eq_zero (Nat.le_zero.mp enough)
  | succ fuel ih =>
    simp only [GahpServer.sendWaiting]
    by_cases free : s.numPendingRequests < s.maxPendingRequests
    · rw [if_pos free]
      cases next : s.takeWaiting with
      | none => exact ⟨s, rfl, h, .refl fun _ => queued_of_takeWaiting next⟩
      | some taken =>
        obtain ⟨id, v⟩ := taken
        dsimp only
        cases found : v.entry id with
        | some k =>
          obtain ⟨owned, u, submitted, sound, turn⟩ := h.turn_owned free next found now
          have shorter : u.queued.length ≤ fuel := by
            rw [turn.order, List.length_cons] at enough
            omega
          obtain ⟨t, looped, sound', rest⟩ := ih sound (turn.quiet quiet) shorter
          refine ⟨t, ?_, sound', .cons turn rest⟩
          simp only [owned, if_true, submitted]
          exact looped
        | none =>
          obtain ⟨order, shape, -⟩ := takeWaiting_spec next
          have waits : id ∈ s.queued := order ▸ List.mem_cons_self
          have abandoned : s.requestTable.lookup id = some none := by
            apply h.abandoned_of_entry waits
            rw [shape] at found
            exact found
          have missing := quiet.resolve_right fun live => live id waits abandoned
          obtain ⟨sound, turn⟩ := h.turn_abandoned free next found missing
          have shorter : v.queued.length ≤ fuel := by
            rw [order, List.length_cons] at enough
            omega
          obtain ⟨t, looped, sound', rest⟩ := ih sound (turn.quiet quiet) shorter
          exact ⟨t, looped, sound', .cons turn rest⟩
    · rw [if_neg free]
      exact ⟨s, rfl, h, .refl fun free' => absurd free' free⟩

end Sound

/-- A poll that takes no entry away that is still needed: no result line names a
waiting id and, without result lines, an abandoned id is not taken from a queue
while `result_reqid` happens to be an id of the table. -/
def Harmless (s : GahpServer) (results : List (List String)) (stale : Int) : Prop :=
  (∀ result ∈ results, resultReqId result ∉ s.queued) ∧
    (results = [] → s.maxPendingRequests ≤ s.numPendingRequests ∨ Quiet stale s)

namespace Sound
variable {s t : GahpServer}

theorem num_nonneg {loose : Option Nat} (h : Sound loose s) : 0 ≤ s.numPendingRequests := by
  rw [h.counted]
  exact Int.natCast_nonneg _

theorem poll (h : Sound none s) {results : List (List String)} {stale : Int}
    (harmless : Harmless s results stale) (now : Nat) :
    ∃ u t, results.foldlM GahpServer.absorb s = .ok u ∧ Answered (results.map resultReqId) s u ∧
      Sound none u ∧ s.poll (some results) stale now = .ok t ∧ Sound none t ∧ Served u t := by
  obtain ⟨u, absorbed, sound, answered⟩ := h.absorb_all harmless.1
  have served : ∃ t,
      GahpServer.sendWaiting (lastReqId results stale) now u.queued.length u = .ok t ∧
      Sound none t ∧ Served u t := by
    rcases List.eq_nil_or_concat' results with rfl | ⟨before, last, rfl⟩
    · cases absorbed
      rcases harmless.2 rfl with full | quiet
      · refine ⟨s, ?_, h, .refl fun free => absurd free (not_lt.mpr full)⟩
        cases s.queued.length with
        | zero => rfl
        | succ fuel => exact if_neg (not_lt.mpr full)
      · exact h.sendWaiting quiet now le_rfl
    · have gone : u.requestTable.lookup (lastReqId (before ++ [last]) stale) = none := by
        rw [answered.lookup, if_pos]
        simp [lastReqId]
      exact sound.sendWaiting (.inl gone) now le_rfl
  obtain ⟨t, sent, sound', serves⟩ := served
  refine ⟨u, t, absorbed, answered, sound, ?_, sound', serves⟩
  simp only [GahpServer.poll, absorbed, bind, Except.bind, sound.num_nonneg, if_true]
  exact sent

end Sound

/-- Every `NULL` entry belongs to an id that is sent and unanswered or that waits. -/
def Tight (s : GahpServer) : Prop :=
  ∀ id, s.requestTable.lookup id = some none → id ∈ s.outstanding ++ s.queued

structure Grows (s t : GahpServer) : Prop where
  lookup : ∀ id, s.requestTable.lookup id ≠ none → t.requestTable.lookup id ≠ none
  waiting : ∀ prio, ∃ later, t.waiting prio = s.waiting prio ++ later
  maximum : t.maxPendingRequests = s.maxPendingRequests
  tight : Tight s → Tight t

namespace Grows
variable {s t u : GahpServer}

theorem refl (s : GahpServer) : Grows s s where
  lookup := fun _ present => present
  waiting := fun _ => ⟨[], by simp⟩
  maximum := rfl
  tight := fun tight => tight

theorem trans (first : Grows s t) (second : Grows t u) : Grows s u where
  lookup := fun id present => second.lookup id (first.lookup id present)
  waiting := by
    intro prio
    obtain ⟨early, before⟩ := first.waiting prio
    obtain ⟨late, after⟩ := second.waiting prio
    exact ⟨early ++ late, by rw [after, before, List.append_assoc]⟩
  maximum := second.maximum.trans first.maximum
  tight := fun tight => second.tight (first.tight tight)

theorem setClient (s : GahpServer) (k : Nat) (c : Requester) : Grows s (s.setClient k c) where
  lookup := fun _ present => present
  waiting := fun _ => ⟨[], by simp [GahpServer.setClient]⟩
  maximum := rfl
  tight := fun tight => tight

end Grows

namespace Sound
variable {s t : GahpServer}
variable {k : Nat}

theorem pending_tracked (h : Sound none s) (owns : (s.clients k).pendingReqId ≠ 0) :
    (s.clients k).pendingReqId ∈ s.outstanding ++ s.queued := by
  apply List.mem_append.mpr
  cases sent : (s.clients k).pendingSubmittedToGahp with
  | true => exact .inl (h.submitted k sent)
  | false => exact .inr (h.unsubmitted k (Option.some_ne_none k) owns sent)

theorem grows_clearPending (h : Sound none s) (k : Nat) : Grows s (s.clearPending k) := by
  have entries := (h.clearPending_table k).2
  refine ⟨fun id present => ?_, fun _ => ⟨[], by simp [GahpServer.clearPending]⟩, rfl, ?_⟩
  · rw [entries]
    split
    · exact Option.some_ne_none _
    · exact present
  · intro tight id abandoned
    rw [entries] at abandoned
    split at abandoned
    · next own =>
        rw [own.2]
        exact h.pending_tracked own.1
    · exact tight id abandoned

theorem grows_enter (h : Sound none s) {command : String} {args : Option String}
    (entered : s.enter k command args = .ok t) : Grows s t := by
  refine (h.grows_clearPending k).trans ?_
  have cleared := h.clearPending k
  simp only [GahpServer.enter] at entered
  split at entered
  · cases entered
  · next id s' given =>
      cases entered
      obtain ⟨-, free, shape, -⟩ := cleared.newReqId given
      obtain ⟨-, -, entries⟩ := cleared.chained.insert_absent free (some k)
      generalize s'.rotatedReqIds = rotated at shape
      subst shape
      refine ⟨fun id' present => ?_, fun _ => ⟨[], by simp [GahpServer.register]⟩, rfl, ?_⟩
      · change ((s.clearPending k).requestTable.insert id (some k)).2.lookup id' ≠ none
        rw [entries]
        split
        · exact Option.some_ne_none _
        · exact present
      · intro tight id' abandoned
        change ((s.clearPending k).requestTable.insert id (some k)).2.lookup id' = some none
          at abandoned
        rw [entries] at abandoned
        split at abandoned
        · cases abandoned
        · exact tight id' abandoned

theorem grows_submit {prio : PrioLevel} {now : Nat} (submitted : s.submit k prio now = .ok t) :
    Grows s t := by
  simp only [GahpServer.submit] at submitted
  split at submitted
  · cases submitted
  · split at submitted
    · cases submitted
      have order := queued_enqueue s prio (s.clients k).pendingReqId
      refine ⟨fun _ present => present, fun prio' => ?_, rfl, fun tight id abandoned => ?_⟩
      · by_cases here : prio' = prio
        · subst here
          exact ⟨_, Function.update_self ..⟩
        · exact ⟨[], by simp [GahpServer.enqueue, here]⟩
      · refine List.mem_append.mpr ((List.mem_append.mp (tight id abandoned)).imp_right ?_)
        intro waits
        exact order.mem_iff.mpr (List.mem_cons_of_mem _ waits)
    · cases submitted
      refine ⟨fun _ present => present, fun _ => ⟨[], by simp [GahpServer.writeRequest]⟩, rfl, ?_⟩
      intro tight id abandoned
      exact List.mem_append.mpr ((List.mem_append.mp (tight id abandoned)).imp_left
        (List.mem_append_left _))

theorem nowPending (h : Sound none s) (k : Nat) (command : String) (args : Option String)
    (prio : PrioLevel) (now : Nat) :
    (∃ t, s.nowPending k command args prio now = .ok t ∧ Sound none t ∧ Grows s t) ∨
      s.nowPending k command args prio now = .error outOfReqIds := by
  simp only [GahpServer.nowPending, bind, Except.bind]
  cases entered : s.enter k command args with
  | ok u =>
    have loose := h.enter entered
    obtain ⟨t, submitted, sound⟩ := loose.submit prio now
    exact .inl ⟨t, submitted, sound, (h.grows_enter entered).trans (grows_submit submitted)⟩
  | error message =>
    refine .inr (congrArg Except.error ?_)
    simp only [GahpServer.enter, GahpServer.newReqId] at entered
    split at entered
    · next given =>
        split at given
        · cases given
        · cases given
          cases entered
          rfl
    · cases entered

theorem collect (h : Sound none s) (k now : Nat) :
    ∃ t, s.collect k now = .ok t ∧ Sound none t ∧ Grows s t := by
  have cleared := h.clearPending k
  have grown := h.grows_clearPending k
  unfold GahpServer.collect
  split
  · next ready =>
      have idle := h.result k (Option.isSome_iff_ne_none.mp ready)
      exact ⟨_, if_pos idle, cleared, grown⟩
  · unfold checkPendingTimeout
    dsimp only
    split
    · exact ⟨_, rfl, cleared, grown⟩
    · exact ⟨s, rfl, h, .refl s⟩

theorem call (h : Sound none s) (k : Nat) (command : String) (args : Option String)
    (prio : PrioLevel) (now : Nat) :
    (∃ t, s.call k command args prio now = .ok t ∧ Sound none t ∧ Grows s t) ∨
      s.call k command args prio now = .error outOfReqIds := by
  have issued : (∃ u, s.issue k command args prio now = .ok u ∧ Sound none u ∧ Grows s u) ∨
      s.issue k command args prio now = .error outOfReqIds := by
    unfold GahpServer.issue
    split
    · exact .inl ⟨s, rfl, h, .refl s⟩
    · exact h.nowPending k command args prio now
  simp only [GahpServer.call, bind, Except.bind]
  rcases issued with ⟨u, issued, sound, grown⟩ | failed
  · obtain ⟨t, collected, sound', grown'⟩ := sound.collect k now
    rw [issued]
    exact .inl ⟨t, collected, sound', grown.trans grown'⟩
  · rw [failed]
    exact .inr rfl

theorem retime (h : Sound none s) (k timeout : Nat) :
    Sound none (s.setClient k { s.clients k with timeout := timeout }) := by
  generalize moved : s.setClient k { s.clients k with timeout := timeout } = t
  have fields : ∀ k', (t.clients k').pendingReqId = (s.clients k').pendingReqId ∧
      (t.clients k').pendingSubmittedToGahp = (s.clients k').pendingSubmittedToGahp ∧
      (t.clients k').pendingCommand = (s.clients k').pendingCommand ∧
      (t.clients k').pendingResult = (s.clients k').pendingResult := by
    intro k'
    subst moved
    by_cases here : k' = k
    · simp [setClient, here]
    · simp [setClient, here]
  have same : t.submittedClients = s.submittedClients := by
    ext k'
    simp only [submittedClients, fields]
  have rest : t = { s with clients := t.clients } := by
    subst moved
    rfl
  generalize t.clients = clients at fields rest
  subst rest
  refine
    { h with
      pending_entry := ?_
      entry_pending := ?_
      submitted := ?_
      unsubmitted := ?_
      unplaced := fun k none => absurd none (Option.some_ne_none k)
      command := ?_
      result := ?_
      finite := same ▸ h.finite
      counted := same ▸ h.counted }
  · simpa only [fields] using h.pending_entry
  · simpa only [fields] using h.entry_pending
  · simpa only [fields] using h.submitted
  · intro k' tight owns unsent
    simp only [fields] at owns unsent ⊢
    exact h.unsubmitted k' tight owns unsent
  · simpa only [fields] using h.command
  · simpa only [fields] using h.result

theorem perform (h : Sound none s) {event : GahpEvent}
    (other : ∀ results stale now, event ≠ .poll results stale now) :
    (∃ t, s.perform event = .ok t ∧ Sound none t ∧ Grows s t) ∨
      s.perform event = .error outOfReqIds := by
  have cleared := h.clearPending
  have grown := h.grows_clearPending
  cases event with
  | call k command args prio now => exact h.call k command args prio now
  | poll results stale now => exact absurd rfl (other results stale now)
  | setTimeout k timeout => exact .inl ⟨_, rfl, h.retime k timeout, .setClient s k _⟩
  | purgePendingRequests k => exact .inl ⟨_, rfl, cleared k, grown k⟩
  | destroy k =>
    refine .inl ⟨_, rfl, ?_, (grown k).trans (.setClient _ k _)⟩
    have idle := (cleared k).retime k 0
    rwa [clearPending_clients, if_pos rfl] at idle

end Sound
end Condor.GridManager.GahpServer
