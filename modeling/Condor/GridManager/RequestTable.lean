import Condor.GridManager.Polling

/-! The table holds the ids of the pending requests and the abandoned ids, as long as no abandoned
id is taken from a waiting queue: for such an id `poll` removes another one. -/
namespace Condor.GridManager
open Condor.Lib

def GahpEvent.answered : GahpEvent → List Int
  | .poll (some results) _ _ => results.map GahpServer.resultReqId
  | _ => []

namespace GahpServer

/-- What the table should hold. An id that no client owns is abandoned. -/
structure ExactTable (s : GahpServer) : Prop where
  pending : ∀ id k, s.requestTable.lookup id = some (some k) ↔
    id ≠ 0 ∧ (s.clients k).pendingReqId = id
  abandoned : ∀ id, s.requestTable.lookup id = some none ↔
    (id ∈ s.outstanding ∨ id ∈ s.queued) ∧ ∀ k, (s.clients k).pendingReqId ≠ id

def LeavesWhenDone (s : GahpServer) (event : GahpEvent) (t : GahpServer) : Prop :=
  ∀ id, s.requestTable.lookup id ≠ none →
    (t.requestTable.lookup id = none ↔ id ∈ event.answered ∨
      s.requestTable.lookup id = some none ∧ id ∈ s.queued ∧ id ∉ t.queued)

/-- The result lines of a poll leave no slot free. -/
def staysFull (s : GahpServer) (results : List (List String)) : Bool :=
  match results.foldlM absorb s with
  | .ok t => decide (t.maxPendingRequests ≤ t.numPendingRequests)
  | .error _ => true

/-- No result line names a waiting id, and an abandoned id does not wait when the
poll has a slot for it. -/
def TakesNoAbandoned (s : GahpServer) : GahpEvent → Prop
  | .poll (some results) _ _ =>
    (∀ result ∈ results, resultReqId result ∉ s.queued) ∧
      (s.staysFull results = true ∨ ∀ id ∈ s.queued, s.requestTable.lookup id ≠ some none)
  | _ => True

instance (s : GahpServer) : DecidablePred s.TakesNoAbandoned
  | .poll (some _) _ _ => inferInstanceAs (Decidable (_ ∧ _))
  | .poll none _ _ => isTrue trivial
  | .call _ _ _ _ _ => isTrue trivial
  | .setTimeout _ _ => isTrue trivial
  | .purgePendingRequests _ => isTrue trivial
  | .destroy _ => isTrue trivial

theorem Sound.exactTable {s : GahpServer} (h : Sound none s) (tight : Tight s) : ExactTable s where
  pending := by
    intro id k
    constructor
    · intro found
      refine ⟨?_, h.entry_pending id k found⟩
      rintro rfl
      rw [h.zero_free] at found
      cases found
    · rintro ⟨nonzero, rfl⟩
      exact h.pending_entry k nonzero
  abandoned := by
    intro id
    rw [← List.mem_append]
    constructor
    · intro found
      refine ⟨tight id found, ?_⟩
      rintro k rfl
      have owns := h.ne_zero_of_tracked (tight _ found)
      rw [h.pending_entry k owns] at found
      cases found
    · rintro ⟨member, unowned⟩
      cases entry : s.requestTable.lookup id with
      | none => exact absurd entry (h.tracked id member)
      | some owner =>
        cases owner with
        | none => rfl
        | some k => exact absurd (h.entry_pending id k entry) (unowned k)

variable {s t : GahpServer}

theorem Answered.tight {ids : List Int} (h : Answered ids s t) (tight : Tight s) : Tight t := by
  intro id abandoned
  rw [h.lookup] at abandoned
  split at abandoned
  · cases abandoned
  · next unanswered =>
      rw [h.queued, List.mem_append, h.outstanding]
      exact (List.mem_append.mp (tight id abandoned)).imp_left fun sent => ⟨sent, unanswered⟩

theorem Served.tight (h : Served s t)
    (live : ∀ id ∈ s.queued, s.requestTable.lookup id ≠ some none) (tight : Tight s) :
    Tight t := by
  intro id abandoned
  rw [h.lookup] at abandoned
  have sent := (List.mem_append.mp (tight id abandoned)).resolve_right fun waits =>
    live id waits abandoned
  obtain ⟨n, -, -, outstanding⟩ := h.taken
  rw [outstanding]
  exact List.mem_append_left _ (List.mem_append_left _ sent)

variable {results : List (List String)} {stale : Int} {now : Nat} {event : GahpEvent}

theorem TakesNoAbandoned.harmless {s : GahpServer}
    (allowed : s.TakesNoAbandoned (.poll (some results) stale now)) :
    Harmless s results stale := by
  refine ⟨allowed.1, ?_⟩
  rintro rfl
  exact allowed.2.imp of_decide_eq_true .inr

/-- After a poll that took no abandoned id, an id is gone exactly if it was answered. -/
theorem poll_exact (sound : Sound none s) (tight : Tight s)
    (allowed : s.TakesNoAbandoned (.poll (some results) stale now))
    (polled : s.poll (some results) stale now = .ok t) :
    (Sound none t ∧ Tight t) ∧ LeavesWhenDone s (.poll (some results) stale now) t := by
  obtain ⟨u, t', absorbed, answered, -, done, sound', served⟩ := sound.poll allowed.harmless now
  cases polled.symm.trans done
  have live : t = u ∨ ∀ id ∈ u.queued, u.requestTable.lookup id ≠ some none := by
    rcases allowed.2 with full | live
    · simp only [staysFull, absorbed, decide_eq_true_eq] at full
      exact .inl (served.full full)
    · refine .inr fun id waits => ?_
      rw [answered.queued] at waits
      rw [answered.lookup, if_neg]
      · exact live id waits
      · intro named
        obtain ⟨result, member, rfl⟩ := List.mem_map.mp named
        exact allowed.1 result member waits
  refine ⟨⟨sound', ?_⟩, fun id present => ?_⟩
  · rcases live with rfl | live
    · exact answered.tight tight
    · exact served.tight live (answered.tight tight)
  · change t.requestTable.lookup id = none ↔ id ∈ results.map resultReqId ∨ _
    rw [served.lookup, answered.lookup]
    constructor
    · intro gone
      refine .inl ?_
      by_contra unanswered
      rw [if_neg unanswered] at gone
      exact present gone
    · rintro (named | ⟨abandoned, waits, dropped⟩)
      · exact if_pos named
      · rw [← answered.queued] at waits
        rcases live with rfl | live
        · exact absurd waits dropped
        · rw [← answered.lookup]
          by_contra stays
          apply live id waits
          rw [answered.lookup] at stays ⊢
          split at stays
          · exact absurd rfl stays
          · next unanswered => rw [if_neg unanswered, abandoned]

theorem Grows.leavesWhenDone (h : Grows s t) (unanswered : event.answered = []) :
    LeavesWhenDone s event t := by
  intro id present
  rw [unanswered]
  constructor
  · intro gone
    exact absurd gone (h.lookup id present)
  · rintro (named | ⟨-, waits, dropped⟩)
    · cases named
    · have kept : ∀ prio, id ∈ s.waiting prio → id ∈ t.waiting prio := by
        intro prio member
        obtain ⟨later, grown⟩ := h.waiting prio
        rw [grown]
        exact List.mem_append_left _ member
      simp only [queued, List.mem_append] at waits dropped
      exact absurd (waits.imp (Or.imp (kept .high) (kept .medium)) (kept .low)) dropped

theorem step_exact (sound : Sound none s) (tight : Tight s) (allowed : TakesNoAbandoned s event)
    (taken : s.step event = some t) :
    (Sound none t ∧ Tight t) ∧ LeavesWhenDone s event t := by
  have performed := perform_of_step taken
  have other : (∀ results stale now, event ≠ .poll results stale now) → event.answered = [] →
      (Sound none t ∧ Tight t) ∧ LeavesWhenDone s event t := by
    intro notPoll unanswered
    rcases sound.perform notPoll with ⟨t', done, sound', grown⟩ | failed
    · cases performed.symm.trans done
      exact ⟨⟨sound', grown.tight tight⟩, grown.leavesWhenDone unanswered⟩
    · rw [failed] at performed
      cases performed
  cases event with
  | poll results stale now =>
    cases results with
    | some results => exact poll_exact sound tight allowed performed
    | none =>
      cases performed
      exact ⟨⟨sound, tight⟩, (Grows.refl s).leavesWhenDone rfl⟩
  | call k command args prio now => exact other nofun rfl
  | setTimeout k timeout => exact other nofun rfl
  | purgePendingRequests k => exact other nofun rfl
  | destroy k => exact other nofun rfl

/-- In every run in which no abandoned id is taken from a waiting queue the table
is exact, and every step takes exactly the ids out that are done with. -/
theorem request_table_exact {maxPendingRequests : Int} {events : List GahpEvent} {s : GahpServer}
    (run : Run (Guarded (Takes step) TakesNoAbandoned) (create maxPendingRequests) events s) :
    s.ExactTable ∧ ∀ event t, s.TakesNoAbandoned event → s.step event = some t →
      s.LeavesWhenDone event t := by
  have kept : Sound none s ∧ Tight s := by
    refine run.invariant (I := fun s => Sound none s ∧ Tight s)
      ⟨sound_create maxPendingRequests, nofun⟩ ?_
    rintro s event t ⟨sound, tight⟩ ⟨allowed, taken⟩
    exact (step_exact sound tight allowed taken).1
  refine ⟨kept.1.exactTable kept.2, fun event t allowed taken => ?_⟩
  exact (step_exact kept.1 kept.2 allowed taken).2

/-- Two clients and one slot: the first request is answered, the second one is sent
and abandoned, and its answer comes late. -/
def lateAnswer : List GahpEvent :=
  [.call 0 "DELTACLOUD_VM_SUBMIT" none .medium 0, .call 1 "DELTACLOUD_STATUS_ALL" none .low 0,
    .poll (some [["2", "NULL"]]) 0 1, .purgePendingRequests 1, .poll (some [["3", "NULL"]]) 0 2]

theorem request_table_exact_lateAnswer :
    ((execute (guardedStep step TakesNoAbandoned) (create 1) lateAnswer).map fun s =>
        s.outstanding ++ s.queued) = some [] ∧
      ∃ s, Run (Guarded (Takes step) TakesNoAbandoned) (create 1) lateAnswer s ∧ s.ExactTable := by
  have finished : ((execute (guardedStep step TakesNoAbandoned) (create 1) lateAnswer).map fun s =>
      s.outstanding ++ s.queued) = some [] := by decide +kernel
  obtain ⟨s, reached, -⟩ := Option.map_eq_some_iff.mp finished
  have run := Run.of_execute_guarded reached
  exact ⟨finished, s, run, (request_table_exact run).1⟩

/-- The second request is abandoned while it waits. The poll that takes it from its
queue removes the id of the first one again and leaves the abandoned id behind. -/
theorem abandoned_id_leaks :
    ∃ s, Run (Takes step) (create 1)
        [.call 0 "DELTACLOUD_VM_SUBMIT" none .medium 0, .call 1 "DELTACLOUD_STATUS_ALL" none .low 0,
          .destroy 1, .poll (some [["2", "NULL"]]) 0 1] s ∧
      s.requestTable.lookup 3 = some none ∧ s.outstanding = [] ∧ s.queued = [] ∧
      ¬ s.ExactTable := by
  have finished : ((execute step (create 1)
      [.call 0 "DELTACLOUD_VM_SUBMIT" none .medium 0, .call 1 "DELTACLOUD_STATUS_ALL" none .low 0,
        .destroy 1, .poll (some [["2", "NULL"]]) 0 1]).map fun s =>
      (s.requestTable.lookup 3, s.outstanding, s.queued)) = some (some none, [], []) := by
    decide +kernel
  obtain ⟨s, reached, seen⟩ := Option.map_eq_some_iff.mp finished
  obtain ⟨leaked, sent, waits⟩ := by simpa only [Prod.mk.injEq] using seen
  refine ⟨s, Run.of_execute reached, leaked, sent, waits, fun exact => ?_⟩
  have tracked := ((exact.abandoned 3).mp leaked).1
  rw [sent, waits] at tracked
  rcases tracked with member | member
  · cases member
  · cases member

end GahpServer
end Condor.GridManager
