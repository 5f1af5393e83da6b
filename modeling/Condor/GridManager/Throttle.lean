import Condor.GridManager.Polling

/-! `num_pending_requests` against the requests that are with the GAHP, and the order in which
waiting requests are sent, for a GAHP that answers each request at most once. What can go wrong is a
removal under a `result_reqid` that no result line has set. -/
namespace Condor.GridManager.GahpServer
open Condor.Lib

def activeClients (s : GahpServer) : Set Nat := {k | (s.clients k).pendingReqId ∈ s.outstanding}

/-- The GAHP answers each request at most once and names no other ids. -/
def AnswersSent (s : GahpServer) : GahpEvent → Prop
  | .poll (some results) _ _ =>
    (results.map resultReqId).Nodup ∧ ∀ result ∈ results, resultReqId result ∈ s.outstanding
  | _ => True

/-- Without result lines, a poll that has a slot for an abandoned id does not find
the id of an entry in `result_reqid`. -/
def SparesEntries (s : GahpServer) : GahpEvent → Prop
  | .poll (some []) stale _ =>
    s.maxPendingRequests ≤ s.numPendingRequests ∨ s.requestTable.lookup stale = none ∨
      ∀ id ∈ s.queued, s.requestTable.lookup id ≠ some none
  | _ => True

instance (s : GahpServer) : DecidablePred s.AnswersSent
  | .poll (some _) _ _ => inferInstanceAs (Decidable (_ ∧ _))
  | .poll none _ _ => isTrue trivial
  | .call _ _ _ _ _ => isTrue trivial
  | .setTimeout _ _ => isTrue trivial
  | .purgePendingRequests _ => isTrue trivial
  | .destroy _ => isTrue trivial

instance (s : GahpServer) : DecidablePred s.SparesEntries
  | .poll (some []) _ _ => inferInstanceAs (Decidable (_ ∨ _ ∨ _))
  | .poll (some (_ :: _)) _ _ => isTrue trivial
  | .poll none _ _ => isTrue trivial
  | .call _ _ _ _ _ => isTrue trivial
  | .setTimeout _ _ => isTrue trivial
  | .purgePendingRequests _ => isTrue trivial
  | .destroy _ => isTrue trivial

/-- Waiting requests go out highest priority first and in the order of their queue,
until no slot is free or none waits; abandoned ones are passed over. -/
structure SendsInOrder (s t : GahpServer) : Prop where
  taken : ∃ n, t.queued = s.queued.drop n ∧
    t.written = s.written ++ (s.queued.take n).filterMap s.requestLine
  waiting : ∀ prio, t.waiting prio <:+ s.waiting prio
  drained : t.numPendingRequests < t.maxPendingRequests → t.queued = []

def Throttles (s : GahpServer) (event : GahpEvent) : Except String GahpServer → Prop
  | .error message => message = outOfReqIds
  | .ok t =>
    match event with
    | .poll (some _) _ _ => SendsInOrder s t
    | _ => ∀ prio, ∃ later, t.waiting prio = s.waiting prio ++ later

variable {s : GahpServer}

theorem Sound.activeClients_eq (h : Sound none s) : s.activeClients = s.submittedClients :=
  Set.ext fun k => (h.submitted_iff k).symm

variable {results : List (List String)} {stale : Int} {u : GahpServer} {ids : List Int}

theorem Sound.harmless (h : Sound none s) {now : Nat}
    (answers : s.AnswersSent (.poll (some results) stale now))
    (spares : s.SparesEntries (.poll (some results) stale now)) : Harmless s results stale := by
  refine ⟨fun result member => h.not_queued_of_outstanding (answers.2 result member), ?_⟩
  rintro rfl
  exact spares

theorem Answered.requestLine (h : Answered ids s u) (sound : Sound none s) {id : Int}
    (unanswered : id ∉ ids) :
    u.requestLine id = s.requestLine id := by
  have entry : u.entry id = s.entry id := by
    rw [GahpServer.entry, h.lookup, if_neg unanswered]
    rfl
  unfold GahpServer.requestLine
  rw [entry]
  cases found : s.entry id with
  | none => rfl
  | some k =>
    have owned := sound.entry_pending id k (Option.join_eq_some_iff.mp found)
    simp only [Option.bind_some, h.clients k (owned ▸ unanswered)]

theorem sendsInOrder_of_served {t : GahpServer} (sound : Sound none s) (answered : Answered ids s u)
    (served : Served u t) (apart : ∀ id ∈ s.queued, id ∉ ids) :
    SendsInOrder s t where
  taken := by
    obtain ⟨n, left, lines, -⟩ := served.taken
    rw [answered.queued] at left lines
    refine ⟨n, left, ?_⟩
    rw [lines, answered.written]
    refine congrArg _ (List.filterMap_congr fun id member => ?_)
    exact answered.requestLine sound (apart id (List.mem_of_mem_take member))
  waiting := answered.waiting ▸ served.waiting
  drained := served.drained

theorem poll_throttles (sound : Sound none s) (harmless : Harmless s results stale) (now : Nat) :
    ∃ t, s.poll (some results) stale now = .ok t ∧ Sound none t ∧ SendsInOrder s t ∧
      t.maxPendingRequests = s.maxPendingRequests := by
  obtain ⟨u, t, -, answered, -, polled, sound', served⟩ := sound.poll harmless now
  refine ⟨t, polled, sound', ?_, served.maximum.trans answered.maximum⟩
  refine sendsInOrder_of_served sound answered served fun id waits named => ?_
  obtain ⟨result, member, rfl⟩ := List.mem_map.mp named
  exact harmless.1 result member waits

theorem perform_throttles {event : GahpEvent} (sound : Sound none s) (answers : s.AnswersSent event)
    (spares : s.SparesEntries event) :
    Throttles s event (s.perform event) ∧ ∀ t, s.perform event = .ok t →
      Sound none t ∧ t.maxPendingRequests = s.maxPendingRequests := by
  have other : (∀ results stale now, event ≠ .poll results stale now) →
      (∀ t, Grows s t → Throttles s event (.ok t)) →
      Throttles s event (s.perform event) ∧ ∀ t, s.perform event = .ok t →
        Sound none t ∧ t.maxPendingRequests = s.maxPendingRequests := by
    intro notPoll throttled
    rcases sound.perform notPoll with ⟨t, done, sound', grown⟩ | failed
    · rw [done]
      refine ⟨throttled t grown, ?_⟩
      rintro _ ⟨⟩
      exact ⟨sound', grown.maximum⟩
    · rw [failed]
      exact ⟨rfl, nofun⟩
  cases event with
  | poll results stale now =>
    cases results with
    | none =>
      refine ⟨fun _ => ⟨[], by simp⟩, ?_⟩
      rintro _ ⟨⟩
      exact ⟨sound, rfl⟩
    | some results =>
      obtain ⟨t, polled, sound', order, maximum⟩ :=
        poll_throttles sound (sound.harmless answers spares) now
      rw [show s.perform (.poll (some results) stale now) = .ok t from polled]
      refine ⟨order, ?_⟩
      rintro _ ⟨⟩
      exact ⟨sound', maximum⟩
  | call k command args prio now => exact other nofun fun _ grown => grown.waiting
  | setTimeout k timeout => exact other nofun fun _ grown => grown.waiting
  | purgePendingRequests k => exact other nofun fun _ grown => grown.waiting
  | destroy k => exact other nofun fun _ grown => grown.waiting

/-- In every run of a GAHP that answers what it was sent and whose polls spare the
table, the counter is exact and below the limit, no assertion fails, and waiting
requests are sent in order. -/
theorem throttle_exact {maxPendingRequests : Int} {events : List GahpEvent} {s : GahpServer}
    (run : Run (Guarded (Takes step) fun s event => s.AnswersSent event ∧ s.SparesEntries event)
      (create maxPendingRequests) events s) :
    (s.activeClients.Finite ∧ s.numPendingRequests = s.activeClients.ncard) ∧
      s.numPendingRequests ≤ max maxPendingRequests 0 ∧
      ∀ event, s.AnswersSent event → s.SparesEntries event →
        Throttles s event (s.perform event) := by
  have kept : Sound none s ∧ s.maxPendingRequests = maxPendingRequests := by
    refine run.invariant (I := fun s => Sound none s ∧ s.maxPendingRequests = maxPendingRequests)
      ⟨sound_create maxPendingRequests, rfl⟩ ?_
    rintro s event t ⟨sound, maximum⟩ ⟨⟨answers, spares⟩, taken⟩
    obtain ⟨sound', same⟩ :=
      (perform_throttles sound answers spares).2 t (perform_of_step taken)
    exact ⟨sound', same.trans maximum⟩
  obtain ⟨sound, rfl⟩ := kept
  rw [sound.activeClients_eq]
  exact ⟨⟨sound.finite, sound.counted⟩, sound.bounded,
    fun event answers spares => (perform_throttles sound answers spares).1⟩

def overtaking : List GahpEvent :=
  [.call 0 "DELTACLOUD_VM_SUBMIT" none .medium 0, .call 1 "DELTACLOUD_STATUS_ALL" none .low 0,
    .call 2 "DELTACLOUD_ACTION" (some "i-7 stop") .high 0, .poll (some [["2", "NULL"]]) 0 1]

theorem throttle_exact_overtaking :
    ((execute (guardedStep step fun s event => s.AnswersSent event ∧ s.SparesEntries event)
        (create 1) overtaking).map fun s => (s.written.map Prod.fst, s.queued)) =
      some (["DELTACLOUD_VM_SUBMIT", "DELTACLOUD_ACTION"], [3]) ∧
      ∃ s, Run (Guarded (Takes step) fun s event => s.AnswersSent event ∧ s.SparesEntries event)
          (create 1) overtaking s ∧ s.numPendingRequests = s.activeClients.ncard := by
  have finished : ((execute (guardedStep step fun s event => s.AnswersSent event ∧
        s.SparesEntries event) (create 1) overtaking).map fun s =>
      (s.written.map Prod.fst, s.queued)) =
      some (["DELTACLOUD_VM_SUBMIT", "DELTACLOUD_ACTION"], [3]) := by decide +kernel
  obtain ⟨s, reached, -⟩ := Option.map_eq_some_iff.mp finished
  have run := Run.of_execute_guarded reached
  exact ⟨finished, s, run, (throttle_exact run).1.2⟩

/-- Two requests are with the GAHP and a third one waits and is abandoned. The first
one times out, and the next poll has no result lines and 3 in `result_reqid`. -/
def slotLost : List GahpEvent :=
  [.setTimeout 0 5, .call 0 "DELTACLOUD_VM_SUBMIT" none .medium 0,
    .call 1 "DELTACLOUD_STATUS_ALL" none .low 0, .call 2 "DELTACLOUD_ACTION" none .medium 0,
    .destroy 2, .call 0 "DELTACLOUD_VM_SUBMIT" none .medium 9, .poll (some []) 3 9,
    .poll (some [["2", "NULL"], ["3", "NULL"]]) 0 10]

/-- The answer to the second request finds no entry; its slot is never free again. -/
theorem answered_request_still_counted :
    ∃ s, Run (Guarded (Takes step) AnswersSent) (create 2) slotLost s ∧
      s.numPendingRequests = 1 ∧ s.activeClients = ∅ := by
  have finished : ((execute (guardedStep step AnswersSent) (create 2) slotLost).map fun s =>
      (s.numPendingRequests, s.outstanding)) = some (1, []) := by decide +kernel
  obtain ⟨s, reached, seen⟩ := Option.map_eq_some_iff.mp finished
  obtain ⟨count, sent⟩ := Prod.mk.inj seen
  refine ⟨s, Run.of_execute_guarded reached, count, Set.eq_empty_iff_forall_notMem.mpr ?_⟩
  intro k member
  rw [activeClients, sent] at member
  cases member

end Condor.GridManager.GahpServer
