import Condor.GridManager.GahpServer

/-! One invariant couples the table, the queues, the counter and the flags of the clients. Inside an
event one client may be `loose`: it owns an id that is neither queued nor sent. -/
namespace Condor.GridManager.GahpServer
open Condor.Lib Condor.Utils

def submittedClients (s : GahpServer) : Set Nat :=
  {k | (s.clients k).pendingSubmittedToGahp = true}

structure Sound (loose : Option Nat) (s : GahpServer) : Prop where
  chained : s.requestTable.Chained
  zero_free : s.requestTable.lookup 0 = none
  pending_entry : ∀ k, (s.clients k).pendingReqId ≠ 0 →
    s.requestTable.lookup (s.clients k).pendingReqId = some (some k)
  entry_pending : ∀ id k, s.requestTable.lookup id = some (some k) →
    (s.clients k).pendingReqId = id
  tracked : ∀ id ∈ s.outstanding ++ s.queued, s.requestTable.lookup id ≠ none
  once : (s.outstanding ++ s.queued).Nodup
  submitted : ∀ k, (s.clients k).pendingSubmittedToGahp = true →
    (s.clients k).pendingReqId ∈ s.outstanding
  unsubmitted : ∀ k, some k ≠ loose → (s.clients k).pendingReqId ≠ 0 →
    (s.clients k).pendingSubmittedToGahp = false → (s.clients k).pendingReqId ∈ s.queued
  unplaced : ∀ k, some k = loose → (s.clients k).pendingReqId ≠ 0 ∧
    (s.clients k).pendingReqId ∉ s.outstanding ++ s.queued
  command : ∀ k, (s.clients k).pendingReqId ≠ 0 → (s.clients k).pendingCommand ≠ none
  result : ∀ k, (s.clients k).pendingResult ≠ none → (s.clients k).pendingReqId = 0
  fresh : s.rotatedReqIds = false → ∀ id, s.requestTable.lookup id ≠ none → id ≤ s.nextReqId
  next_nonneg : 0 ≤ s.nextReqId
  finite : s.submittedClients.Finite
  counted : s.numPendingRequests = s.submittedClients.ncard
  bounded : s.numPendingRequests ≤ max s.maxPendingRequests 0

theorem sound_create (maxPendingRequests : Int) : Sound none (create maxPendingRequests) where
  chained := HashTable.Chained.create _ _
  zero_free := rfl
  pending_entry := fun _ owns => absurd rfl owns
  entry_pending := nofun
  tracked := nofun
  once := List.nodup_nil
  submitted := nofun
  unsubmitted := fun _ _ owns => absurd rfl owns
  unplaced := nofun
  command := fun _ owns => absurd rfl owns
  result := fun _ _ => rfl
  fresh := fun _ _ present => absurd rfl present
  next_nonneg := Int.one_nonneg
  finite := by simp [submittedClients, create]
  counted := by simp [submittedClients, create]
  bounded := Int.le_max_right _ _

namespace Sound
variable {s t : GahpServer} {loose : Option Nat}

theorem ne_zero_of_tracked (h : Sound loose s) {id : Int}
    (member : id ∈ s.outstanding ++ s.queued) :
    id ≠ 0 := by
  rintro rfl
  exact h.tracked 0 member h.zero_free

theorem not_queued_of_outstanding (h : Sound loose s) {id : Int} (sent : id ∈ s.outstanding) :
    id ∉ s.queued :=
  fun waits => List.disjoint_of_nodup_append h.once sent waits

theorem submitted_iff (h : Sound none s) (k : Nat) :
    (s.clients k).pendingSubmittedToGahp = true ↔ (s.clients k).pendingReqId ∈ s.outstanding := by
  constructor
  · exact h.submitted k
  · intro sent
    by_contra unsent
    have waits := h.unsubmitted k (Option.some_ne_none k)
      (h.ne_zero_of_tracked (List.mem_append_left _ sent)) (eq_false_of_ne_true unsent)
    exact h.not_queued_of_outstanding sent waits

theorem owner_unique (h : Sound loose s) {k k' : Nat} (owns : (s.clients k').pendingReqId ≠ 0)
    (same : (s.clients k').pendingReqId = (s.clients k).pendingReqId) : k' = k := by
  have mine := h.pending_entry k (same ▸ owns)
  have other := h.pending_entry k' owns
  rw [same, mine] at other
  exact (Option.some.inj (Option.some.inj other)).symm

theorem clearPending_table (h : Sound none s) (k : Nat) :
    (s.clearPending k).requestTable.Chained ∧
      ∀ id, (s.clearPending k).requestTable.lookup id =
        if (s.clients k).pendingReqId ≠ 0 ∧ id = (s.clients k).pendingReqId then some none
        else s.requestTable.lookup id := by
  by_cases owns : (s.clients k).pendingReqId = 0
  · simp only [clearPending, owns, ne_eq, not_true_eq_false, if_false, false_and]
    exact ⟨h.chained, fun _ => trivial⟩
  · have found := h.chained.remove_found (h.pending_entry k owns)
    obtain ⟨kept, lookups⟩ := h.chained.remove (s.clients k).pendingReqId
    have absent : (s.requestTable.remove (s.clients k).pendingReqId).2.lookup
        (s.clients k).pendingReqId = none := by
      rw [lookups, if_pos rfl]
    obtain ⟨-, chained, entries⟩ := kept.insert_absent absent none
    have table : (s.clearPending k).requestTable =
        ((s.requestTable.remove (s.clients k).pendingReqId).2.insert
          (s.clients k).pendingReqId none).2 := by
      simp only [clearPending, if_pos owns]
      rw [← Prod.eta (s.requestTable.remove (s.clients k).pendingReqId), found]
    rw [table]
    refine ⟨chained, fun id => ?_⟩
    rw [entries, lookups]
    by_cases here : id = (s.clients k).pendingReqId
    · rw [if_pos here, if_pos ⟨owns, here⟩]
    · rw [if_neg here, if_neg here, if_neg fun both => here both.2]

theorem clearPending_clients (s : GahpServer) (k k' : Nat) :
    (s.clearPending k).clients k' =
      if k' = k then { timeout := (s.clients k).timeout } else s.clients k' :=
  Function.update_apply ..

theorem clearPending_submitted (s : GahpServer) (k : Nat) :
    (s.clearPending k).submittedClients = s.submittedClients \ {k} := by
  ext k'
  simp only [submittedClients, clearPending_clients, Set.mem_ofPred_eq, Set.mem_sdiff,
    Set.mem_singleton_iff]
  by_cases here : k' = k <;> simp [here]

theorem clearPending_counted (h : Sound none s) (k : Nat) :
    (s.clearPending k).numPendingRequests = (s.clearPending k).submittedClients.ncard := by
  rw [clearPending_submitted]
  have count := h.counted
  by_cases sent : (s.clients k).pendingSubmittedToGahp = true
  · have member : k ∈ s.submittedClients := sent
    have less := Set.ncard_sdiff_singleton_add_one member h.finite
    simp only [GahpServer.clearPending, sent, if_true]
    omega
  · have outside : k ∉ s.submittedClients := sent
    rw [Set.sdiff_singleton_eq_self outside]
    simp only [GahpServer.clearPending, if_neg sent]
    exact count

theorem clearPending (h : Sound none s) (k : Nat) : Sound none (s.clearPending k) := by
  obtain ⟨chained, entries⟩ := h.clearPending_table k
  have clients := clearPending_clients s k
  have kept : ∀ id, (s.clearPending k).requestTable.lookup id = none →
      s.requestTable.lookup id = none := by
    intro id missing
    rw [entries] at missing
    split at missing
    · cases missing
    · exact missing
  have present : ∀ id, (s.clearPending k).requestTable.lookup id ≠ none →
      s.requestTable.lookup id ≠ none := by
    intro id stays missing
    apply stays
    rw [entries]
    split
    · next own =>
        rw [own.2, h.pending_entry k own.1] at missing
        cases missing
    · exact missing
  refine
    { chained := chained
      zero_free := ?_
      pending_entry := ?_
      entry_pending := ?_
      tracked := fun id member missing => h.tracked id member (kept id missing)
      once := h.once
      submitted := ?_
      unsubmitted := ?_
      unplaced := fun k none => absurd none (Option.some_ne_none k)
      command := ?_
      result := ?_
      fresh := fun unrotated id stays => h.fresh unrotated id (present id stays)
      next_nonneg := h.next_nonneg
      finite := ?_
      counted := h.clearPending_counted k
      bounded := ?_ }
  · by_contra stays
    exact present 0 stays h.zero_free
  · intro k' owns
    rw [clients] at owns ⊢
    by_cases here : k' = k
    · rw [if_pos here] at owns
      exact absurd rfl owns
    · rw [if_neg here] at owns ⊢
      rw [entries, if_neg fun own => here (h.owner_unique owns own.2)]
      exact h.pending_entry k' owns
  · intro id k' found
    rw [entries] at found
    split at found
    · cases found
    · next other =>
        have owner := h.entry_pending id k' found
        have nonzero : id ≠ 0 := by
          rintro rfl
          rw [h.zero_free] at found
          cases found
        rw [clients]
        by_cases here : k' = k
        · subst here
          exact absurd ⟨owner ▸ nonzero, owner.symm⟩ other
        · rwa [if_neg here]
  · intro k' sent
    rw [clients] at sent ⊢
    split at sent
    · cases sent
    · next here =>
        rw [if_neg here]
        exact h.submitted k' sent
  · intro k' _ owns unsent
    rw [clients] at owns unsent ⊢
    split at owns
    · exact absurd rfl owns
    · next here =>
        rw [if_neg here] at unsent ⊢
        exact h.unsubmitted k' (Option.some_ne_none k') owns unsent
  · intro k' owns
    rw [clients] at owns ⊢
    split at owns
    · exact absurd rfl owns
    · next here =>
        rw [if_neg here]
        exact h.command k' owns
  · intro k' some
    rw [clients] at some ⊢
    split at some
    · exact absurd rfl some
    · next here =>
        rw [if_neg here]
        exact h.result k' some
  · rw [clearPending_submitted]
    exact h.finite.subset Set.sdiff_subset
  · have bound := h.bounded
    simp only [GahpServer.clearPending]
    split <;> omega

end Sound

variable {id : Int}

theorem findReqId_spec {used : Int → Bool} {starting next : Int} {rotated rotated' : Bool}
    {fuel : Nat} (positive : 0 < next)
    (found : findReqId used starting fuel next rotated = some (id, rotated')) :
    0 < id ∧ (rotated' = false → rotated = false ∧ id = next) ∧
      (rotated' = true → used id = false) := by
  induction fuel generalizing next rotated with
  | zero => cases found
  | succ fuel ih =>
    simp only [findReqId] at found
    split at found
    · cases found
    · by_cases past : maxReqId < next
      · simp only [if_pos past, Bool.not_true, Bool.false_or] at found
        split at found
        · next free =>
            cases found
            exact ⟨Int.one_pos, Bool.noConfusion, fun _ => by simpa using free⟩
        · obtain ⟨positive', unrotated, free⟩ := ih (by decide) found
          exact ⟨positive', fun no => absurd (unrotated no).1 (by decide), free⟩
      · simp only [if_neg past] at found
        split at found
        · next done =>
            cases found
            refine ⟨positive, fun no => ⟨no, rfl⟩, fun yes => ?_⟩
            simpa [yes] using done
        · next busy =>
            obtain ⟨positive', unrotated, free⟩ := ih (by omega) found
            refine ⟨positive', fun no => ?_, free⟩
            simp [(unrotated no).1] at busy

namespace Sound
variable {s t : GahpServer} {loose : Option Nat}

/-- A new id is in no entry, and ids of the first round stay below the next one. -/
theorem newReqId (h : Sound loose s) (given : s.newReqId = .ok (id, t)) :
    0 < id ∧ s.requestTable.lookup id = none ∧
      t = { s with nextReqId := id, rotatedReqIds := t.rotatedReqIds } ∧
      (t.rotatedReqIds = false → ∀ id', s.requestTable.lookup id' ≠ none → id' ≤ id) := by
  simp only [GahpServer.newReqId] at given
  split at given
  · next id' rotated found =>
      cases given
      have next : 0 < s.nextReqId + 1 := by
        have := h.next_nonneg
        omega
      obtain ⟨positive, unrotated, free⟩ := findReqId_spec next found
      refine ⟨positive, ?_, rfl, ?_⟩
      · cases turn : rotated with
        | true => simpa using free turn
        | false =>
          by_contra used
          obtain ⟨before, rfl⟩ := unrotated turn
          have below := h.fresh before _ used
          omega
      · intro turn id' used
        obtain ⟨before, rfl⟩ := unrotated turn
        have below := h.fresh before id' used
        omega
  · cases given

variable {k : Nat}

theorem register (h : Sound none s) (idle : (s.clients k).pendingReqId = 0)
    (noResult : (s.clients k).pendingResult = none) (positive : 0 < id)
    (free : s.requestTable.lookup id = none) (below : s.rotatedReqIds = false → id ≤ s.nextReqId)
    (command : String) (args : Option String) : Sound (some k) (s.register k id command args) := by
  obtain ⟨-, chained, entries⟩ := h.chained.insert_absent free (some k)
  change ∀ id', (s.register k id command args).requestTable.lookup id' = _ at entries
  have self : (s.register k id command args).clients k =
      { s.clients k with
        pendingCommand := some command
        pendingReqId := id
        pendingArgs := args
        pendingTimeout := (s.clients k).timeout } :=
    Function.update_self ..
  have others : ∀ k', k' ≠ k → (s.register k id command args).clients k' = s.clients k' :=
    fun k' other => Function.update_of_ne other _ _
  have flags : ∀ k', ((s.register k id command args).clients k').pendingSubmittedToGahp =
      (s.clients k').pendingSubmittedToGahp := by
    intro k'
    by_cases here : k' = k
    · rw [here, self]
    · rw [others k' here]
  have same : (s.register k id command args).submittedClients = s.submittedClients := by
    ext k'
    simp only [submittedClients, flags]
  have unsent : (s.clients k).pendingSubmittedToGahp = false := by
    by_contra sent
    have member := h.submitted k (eq_true_of_ne_false sent)
    exact h.ne_zero_of_tracked (List.mem_append_left _ member) idle
  have elsewhere : ∀ k', (s.clients k').pendingReqId ≠ 0 → k' ≠ k := by
    rintro k' owns rfl
    exact owns idle
  refine
    { chained := chained
      zero_free := ?_
      pending_entry := ?_
      entry_pending := ?_
      tracked := ?_
      once := h.once
      submitted := ?_
      unsubmitted := ?_
      unplaced := ?_
      command := ?_
      result := ?_
      fresh := ?_
      next_nonneg := h.next_nonneg
      finite := same ▸ h.finite
      counted := same ▸ h.counted
      bounded := h.bounded }
  · rw [entries, if_neg positive.ne]
    exact h.zero_free
  · intro k' owns
    by_cases here : k' = k
    · subst here
      rw [self, entries, if_pos rfl]
    · rw [others k' here] at owns ⊢
      rw [entries, if_neg ?_]
      · exact h.pending_entry k' owns
      · intro taken
        have found := h.pending_entry k' owns
        rw [taken, free] at found
        cases found
  · intro id' k' found
    rw [entries] at found
    split at found
    · next here =>
        cases found
        rw [self, here]
    · have owner := h.entry_pending id' k' found
      have owns : (s.clients k').pendingReqId ≠ 0 := by
        intro none
        rw [← owner, none, h.zero_free] at found
        cases found
      rwa [others k' (elsewhere k' owns)]
  · intro id' member missing
    rw [entries] at missing
    split at missing
    · cases missing
    · exact h.tracked id' member missing
  · intro k' sent
    rw [flags] at sent
    have other : k' ≠ k := by
      rintro rfl
      rw [unsent] at sent
      cases sent
    rw [others k' other]
    exact h.submitted k' sent
  · intro k' tight owns waits
    have other : k' ≠ k := fun here => tight (congrArg some here)
    rw [others k' other] at owns waits ⊢
    exact h.unsubmitted k' (Option.some_ne_none k') owns waits
  · intro k' here
    cases here
    rw [self]
    exact ⟨positive.ne', fun member => h.tracked id member free⟩
  · intro k' owns
    by_cases here : k' = k
    · rw [here, self]
      exact Option.some_ne_none _
    · rw [others k' here] at owns ⊢
      exact h.command k' owns
  · intro k' ready
    by_cases here : k' = k
    · rw [here, self] at ready
      exact absurd noResult ready
    · rw [others k' here] at ready ⊢
      exact h.result k' ready
  · intro unrotated id' present
    rw [entries] at present
    split at present
    · next here =>
        rw [here]
        exact below unrotated
    · exact h.fresh unrotated id' present

theorem enter (h : Sound none s) {command : String} {args : Option String}
    (entered : s.enter k command args = .ok t) : Sound (some k) t := by
  simp only [GahpServer.enter] at entered
  split at entered
  · cases entered
  · next id s' given =>
      cases entered
      have cleared := h.clearPending k
      have clients := clearPending_clients s k k
      rw [if_pos rfl] at clients
      obtain ⟨positive, free, shape, fresh⟩ := cleared.newReqId given
      have advanced : Sound none s' := by
        rw [shape]
        exact { cleared with fresh := fresh, next_nonneg := positive.le }
      have same : s'.clients k = (s.clearPending k).clients k := by rw [shape]
      refine advanced.register ?_ ?_ positive ?_ ?_ command args
      · rw [same, clients]
      · rw [same, clients]
      · rw [shape]
        exact free
      · intro _
        rw [shape]

theorem queued_enqueue (s : GahpServer) (prio : PrioLevel) (id : Int) :
    (s.enqueue prio id).queued.Perm (id :: s.queued) := by
  have inner : ∀ before after : List Int,
      (before ++ ([id] ++ after)).Perm (id :: (before ++ after)) :=
    fun _ _ => List.perm_middle
  cases prio with
  | high => simp [queued, GahpServer.enqueue]
  | medium =>
    simpa [queued, GahpServer.enqueue] using inner (s.waiting .high ++ s.waiting .medium) _
  | low => simpa [queued, GahpServer.enqueue] using inner s.queued []

theorem tracked_placed (h : Sound (some k) s) {ids : List Int}
    (all : ids.Perm ((s.clients k).pendingReqId :: (s.outstanding ++ s.queued))) :
    ∀ id ∈ ids, s.requestTable.lookup id ≠ none := by
  intro id member
  rcases List.mem_cons.mp (all.mem_iff.mp member) with here | before
  · rw [here, h.pending_entry k (h.unplaced k rfl).1]
    exact Option.some_ne_none _
  · exact h.tracked id before

theorem enqueue (h : Sound (some k) s) (prio : PrioLevel) :
    Sound none (s.enqueue prio (s.clients k).pendingReqId) := by
  obtain ⟨owns, untracked⟩ := h.unplaced k rfl
  have order := queued_enqueue s prio (s.clients k).pendingReqId
  have all := (order.append_left s.outstanding).trans List.perm_middle
  refine
    { h with
      tracked := h.tracked_placed all
      once := ?_
      unsubmitted := ?_
      unplaced := nofun }
  · exact all.nodup_iff.mpr (List.nodup_cons.mpr ⟨untracked, h.once⟩)
  · intro k' _ owns' unsent
    apply order.mem_iff.mpr
    by_cases here : k' = k
    · subst here
      exact List.mem_cons_self
    · have tight : some k' ≠ some k := fun same => here (Option.some.inj same)
      exact List.mem_cons_of_mem _ (h.unsubmitted k' tight owns' unsent)

theorem writeRequest (h : Sound (some k) s) (command : String) (now : Nat)
    (free : s.numPendingRequests < s.maxPendingRequests) :
    Sound none (s.writeRequest k command now) := by
  obtain ⟨owns, untracked⟩ := h.unplaced k rfl
  have unsent : (s.clients k).pendingSubmittedToGahp = false := by
    by_contra sent
    exact untracked (List.mem_append_left _ (h.submitted k (eq_true_of_ne_false sent)))
  have others : ∀ k', k' ≠ k → (s.writeRequest k command now).clients k' = s.clients k' :=
    fun k' other => Function.update_of_ne other _ _
  have self : (s.writeRequest k command now).clients k =
      { s.clients k with
        pendingSubmittedToGahp := true
        pendingTimeout := if (s.clients k).pendingTimeout = 0 then 0
          else (s.clients k).pendingTimeout + now } :=
    Function.update_self ..
  have ids : ∀ k', ((s.writeRequest k command now).clients k').pendingReqId =
      (s.clients k').pendingReqId := by
    intro k'
    by_cases here : k' = k
    · rw [here, self]
    · rw [others k' here]
  have grown : (s.writeRequest k command now).submittedClients = insert k s.submittedClients := by
    ext k'
    by_cases here : k' = k
    · simp [submittedClients, here, self]
    · simp [submittedClients, here, others k' here]
  have all : ((s.outstanding ++ [(s.clients k).pendingReqId]) ++ s.queued).Perm
      ((s.clients k).pendingReqId :: (s.outstanding ++ s.queued)) := by
    simp
  refine
    { chained := h.chained
      zero_free := h.zero_free
      pending_entry := ?_
      entry_pending := ?_
      tracked := h.tracked_placed all
      once := all.nodup_iff.mpr (List.nodup_cons.mpr ⟨untracked, h.once⟩)
      submitted := ?_
      unsubmitted := ?_
      unplaced := nofun
      command := ?_
      result := ?_
      fresh := h.fresh
      next_nonneg := h.next_nonneg
      finite := grown ▸ h.finite.insert k
      counted := ?_
      bounded := ?_ }
  · intro k' owns'
    rw [ids] at owns' ⊢
    exact h.pending_entry k' owns'
  · intro id k' found
    rw [ids]
    exact h.entry_pending id k' found
  · intro k' sent
    rw [ids]
    apply List.mem_append.mpr
    by_cases here : k' = k
    · rw [here]
      exact .inr List.mem_cons_self
    · rw [others k' here] at sent
      exact .inl (h.submitted k' sent)
  · intro k' _ owns' waits
    have other : k' ≠ k := by
      rintro rfl
      rw [self] at waits
      cases waits
    have tight : some k' ≠ some k := fun same => other (Option.some.inj same)
    rw [others k' other] at owns' waits ⊢
    exact h.unsubmitted k' tight owns' waits
  · intro k' owns'
    rw [ids] at owns'
    by_cases here : k' = k
    · rw [here, self]
      exact h.command k owns
    · rw [others k' here]
      exact h.command k' owns'
  · intro k' ready
    rw [ids]
    by_cases here : k' = k
    · rw [here, self] at ready
      rw [here]
      exact h.result k ready
    · rw [others k' here] at ready
      exact h.result k' ready
  · have outside : k ∉ s.submittedClients := by
      simp [submittedClients, unsent]
    have count := h.counted
    rw [grown, Set.ncard_insert_of_notMem outside h.finite]
    change s.numPendingRequests + 1 = _
    omega
  · change s.numPendingRequests + 1 ≤ max s.maxPendingRequests 0
    omega

theorem submit (h : Sound (some k) s) (prio : PrioLevel) (now : Nat) :
    ∃ t, s.submit k prio now = .ok t ∧ Sound none t := by
  obtain ⟨owns, -⟩ := h.unplaced k rfl
  simp only [GahpServer.submit]
  cases named : (s.clients k).pendingCommand with
  | none => exact absurd named (h.command k owns)
  | some command =>
    by_cases full : s.maxPendingRequests ≤ s.numPendingRequests
    · exact ⟨_, if_pos full, h.enqueue prio⟩
    · exact ⟨_, if_neg full, h.writeRequest command now (by omega)⟩

/-- An id that is not queued may leave the table with the client that owns it. -/
theorem drop (h : Sound none s) (unqueued : id ∉ s.queued)
    (table : t.requestTable = (s.requestTable.remove id).2)
    (outstanding : t.outstanding = s.outstanding.erase id) (queues : t.queued = s.queued)
    (next : t.nextReqId = s.nextReqId) (rotated : t.rotatedReqIds = s.rotatedReqIds)
    (others : ∀ k, (s.clients k).pendingReqId ≠ id → t.clients k = s.clients k)
    (owner : ∀ k, (s.clients k).pendingReqId = id →
      (t.clients k).pendingReqId = 0 ∧ (t.clients k).pendingSubmittedToGahp = false)
    (finite : t.submittedClients.Finite) (counted : t.numPendingRequests = t.submittedClients.ncard)
    (bounded : t.numPendingRequests ≤ max t.maxPendingRequests 0) : Sound none t := by
  obtain ⟨chained, entries⟩ := h.chained.remove id
  rw [← table] at chained entries
  have tracked : ∀ id' ∈ t.outstanding ++ t.queued, id' ≠ id ∧ id' ∈ s.outstanding ++ s.queued := by
    intro id' member
    rw [outstanding, queues] at member
    rcases List.mem_append.mp member with sent | waits
    · rw [(List.Nodup.of_append_left h.once).mem_erase_iff] at sent
      exact ⟨sent.1, List.mem_append_left _ sent.2⟩
    · exact ⟨fun same => unqueued (same ▸ waits), List.mem_append_right _ waits⟩
  have elsewhere : ∀ k, (t.clients k).pendingReqId ≠ 0 → (s.clients k).pendingReqId ≠ id :=
    fun k owns same => owns (owner k same).1
  refine
    { chained := chained
      zero_free := ?_
      pending_entry := ?_
      entry_pending := ?_
      tracked := ?_
      once := ?_
      submitted := ?_
      unsubmitted := ?_
      unplaced := nofun
      command := ?_
      result := ?_
      fresh := ?_
      next_nonneg := next ▸ h.next_nonneg
      finite := finite
      counted := counted
      bounded := bounded }
  · rw [entries, h.zero_free, ite_self]
  · intro k owns
    have other := elsewhere k owns
    rw [others k other] at owns ⊢
    rw [entries, if_neg other]
    exact h.pending_entry k owns
  · intro id' k found
    rw [entries] at found
    split at found
    · cases found
    · next other =>
        have owned := h.entry_pending id' k found
        rwa [others k (owned ▸ other)]
  · intro id' member
    rw [entries, if_neg (tracked id' member).1]
    exact h.tracked id' (tracked id' member).2
  · rw [outstanding, queues]
    exact h.once.sublist (List.erase_sublist.append_right _)
  · intro k sent
    have other : (s.clients k).pendingReqId ≠ id := by
      intro same
      rw [(owner k same).2] at sent
      cases sent
    rw [others k other] at sent ⊢
    rw [outstanding]
    exact (List.mem_erase_of_ne other).mpr (h.submitted k sent)
  · intro k tight owns waits
    have other := elsewhere k owns
    rw [others k other] at owns waits ⊢
    rw [queues]
    exact h.unsubmitted k tight owns waits
  · intro k owns
    have other := elsewhere k owns
    rw [others k other] at owns ⊢
    exact h.command k owns
  · intro k ready
    by_cases mine : (s.clients k).pendingReqId = id
    · exact (owner k mine).1
    · rw [others k mine] at ready ⊢
      exact h.result k ready
  · intro unrotated id' present
    rw [rotated] at unrotated
    rw [next]
    rw [entries] at present
    split at present
    · exact absurd rfl present
    · exact h.fresh unrotated id' present

theorem forget (h : Sound none s) (unqueued : id ∉ s.queued)
    (unowned : ∀ k, (s.clients k).pendingReqId ≠ id) : Sound none (s.forget id) :=
  h.drop unqueued rfl rfl rfl rfl rfl (fun _ _ => rfl) (fun k owned => absurd owned (unowned k))
    h.finite h.counted h.bounded

theorem deliver_submitted (s : GahpServer) (k : Nat) (result : List String) :
    (s.deliver k result).submittedClients = s.submittedClients \ {k} := by
  ext k'
  by_cases here : k' = k
  · simp [submittedClients, GahpServer.deliver, here]
  · simp [submittedClients, GahpServer.deliver, here]

theorem deliver (h : Sound none s) (result : List String)
    (sent : (s.clients k).pendingSubmittedToGahp = true) :
    Sound none ((s.deliver k result).forget (s.clients k).pendingReqId) := by
  have outstanding := h.submitted k sent
  have owns := h.ne_zero_of_tracked (List.mem_append_left _ outstanding)
  have members := deliver_submitted s k result
  have count := h.counted
  have less := Set.ncard_sdiff_singleton_add_one (show k ∈ s.submittedClients from sent) h.finite
  refine h.drop (h.not_queued_of_outstanding outstanding) rfl rfl rfl rfl rfl ?_ ?_ ?_ ?_ ?_
  · intro k' other
    have distinct : k' ≠ k := by
      rintro rfl
      exact other rfl
    exact Function.update_of_ne distinct _ _
  · intro k' owned
    have same := h.owner_unique (owned ▸ owns) owned
    simp only [GahpServer.forget, GahpServer.deliver, same, Function.update_self, and_self]
  · change (s.deliver k result).submittedClients.Finite
    rw [members]
    exact h.finite.subset Set.sdiff_subset
  · change s.numPendingRequests - 1 = (s.deliver k result).submittedClients.ncard
    rw [members]
    omega
  · have bound := h.bounded
    change s.numPendingRequests - 1 ≤ max s.maxPendingRequests 0
    omega

end Sound

end Condor.GridManager.GahpServer
