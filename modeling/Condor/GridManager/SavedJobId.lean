import Mathlib.Data.List.TakeWhile
import Condor.GridManager.LateSubmit

/-! `SetRemoteJobId` saves `deltacloud <name> <id>` in `GridJobId`. The constructor reads it through
a buffer of fixed size and splits it at every blank: exactly the ids without a blank whose text fits
come back. -/

namespace Condor.GridManager

/-- `char buff[16385]` of the constructor. -/
def buffSize : Nat := 16385

def JobAd.fitsBuff (ad : JobAd) (a : Attr) : Bool :=
  decide ((ad.stringOf a).length < buffSize)

/-- The constructor with its buffer; a text that overruns it gives `none`. `GridResource`
is read after the check of the GAHP, `GridJobId` after the required attributes. -/
def World.constructInBuff (self : JobRef) (ad : JobAd) (resubmit gahpDefined : Bool) (time : Int)
    (resource : BaseResource) (table : Utils.HashTable String JobRef) : Option World :=
  let w := World.construct self ad resubmit gahpDefined time resource table
  if !gahpDefined then some w
  else if !ad.fitsBuff .gridResource then none
  else
    match (DCloudJob.blank self ad resubmit).forgetHoldReason.readAd with
    | .error _ => some w
    | .ok _ => if ad.fitsBuff .gridJobId then some w else none

namespace DCloudJob

variable (j : DCloudJob)

theorem stringOf_setGridJobId (newJobId : String) (time : Int) :
    (j.setGridJobId newJobId time).jobAd.stringOf .gridJobId = newJobId := by
  unfold setGridJobId
  simp only
  split
  · next same => exact same
  · next changed =>
      split
      · split <;> exact JobAd.stringOf_assign_string _ _ _
      · next unset =>
          have old : j.jobAd.stringOf .gridJobId ≠ "" :=
            fun empty => changed (empty.trans (not_not.mp unset).symm)
          rw [if_pos old, not_not.mp unset]
          simp [DCloudJob.assign]

theorem instanceName_setInstanceName (name : Option String) (time : Int) :
    (j.setInstanceName name time).instanceName = name :=
  member_of_frozen (setGridJobId_frozen { j with instanceName := name } time _)
    DCloudJob.instanceName fun _ => rfl

theorem members_setInstanceId (id : Option String) (time : Int) :
    (j.setInstanceId id time).instanceName = j.instanceName ∧
      (j.setInstanceId id time).instanceId = id :=
  ⟨member_of_frozen (setGridJobId_frozen { j with instanceId := id } time _)
      DCloudJob.instanceName fun _ => rfl,
    member_of_frozen (setGridJobId_frozen { j with instanceId := id } time _)
      DCloudJob.instanceId fun _ => rfl⟩

variable {α : Type*} {id : String}

theorem head_splitOn [BEq α] [LawfulBEq α] (sep : α) (xs : List α) :
    (xs.splitOn sep).head? = some (xs.takeWhile (· != sep)) := by
  induction xs with
  | nil => rfl
  | cons x xs ih =>
    rw [List.splitOn_cons_eq_if_modifyHead]
    by_cases here : x = sep
    · simp [here]
    · simp [here, ih]

theorem takeWhile_ne_eq_self [BEq α] [LawfulBEq α] {sep : α} {xs : List α} :
    xs.takeWhile (· != sep) = xs ↔ sep ∉ xs := by
  rw [List.takeWhile_eq_self_iff]
  constructor
  · intro all member
    simpa using all sep member
  · intro absent x member
    simpa using fun same : x = sep => absent (same ▸ member)

def firstWord (id : String) : String := String.ofList (id.toList.takeWhile (· != ' '))

theorem firstWord_eq_self : firstWord id = id ↔ ' ' ∉ id.toList := by
  rw [← takeWhile_ne_eq_self, firstWord]
  constructor
  · intro same
    simpa using congrArg String.toList same
  · intro same
    rw [same, String.ofList_toList]

theorem parseGridJobId_fullJobId {name : String} (named : name ≠ "") (oneWord : ' ' ∉ name.toList)
    (known : id ≠ "") :
    parseGridJobId (fullJobId (some name) (some id)) = .ok (some name, some (firstWord id)) := by
  have text : fullJobId (some name) (some id) = "deltacloud " ++ name ++ " " ++ id := by
    simp only [fullJobId, named, known, if_false]
  have letters : ("deltacloud " ++ name ++ " " ++ id).toList =
      "deltacloud".toList ++ ' ' :: (name.toList ++ ' ' :: id.toList) := by
    simp [String.toList_append]
  have tokens : blankTokens (fullJobId (some name) (some id)) =
      "deltacloud" :: name :: (id.toList.splitOn ' ').map String.ofList := by
    have nonempty : "deltacloud " ++ name ++ " " ++ id ≠ "" := by simp
    rw [text, blankTokens, if_neg nonempty, letters,
      List.splitOn_append_cons_self_of_not_mem (by decide),
      List.splitOn_append_cons_self_of_not_mem oneWord]
    simp
  have first : ((id.toList.splitOn ' ').map String.ofList).head? = some (firstWord id) := by
    rw [List.head?_map, head_splitOn]
    rfl
  have ours : isDeltacloud "deltacloud" = true := by decide +kernel
  rw [parseGridJobId, tokens]
  simp only [ours, if_true, List.head?_cons, List.tail_cons, first]

end DCloudJob

namespace World

theorem restoreInstance_members (w : World) (name id : String) (time : Int) :
    (w.restoreInstance (some name) (some id) time).job.instanceName = some name ∧
      (w.restoreInstance (some name) (some id) time).job.instanceId = some id := by
  have named := DCloudJob.instanceName_setInstanceName w.job (some name) time
  obtain ⟨kept, known⟩ := DCloudJob.members_setInstanceId (w.job.setInstanceName (some name) time)
    (some id) time
  unfold restoreInstance
  extract_lets w₁ w₂ w₃
  have slot : w₃.job = w₂.job := by
    simp only [w₃]
    split <;> rfl
  change w₃.job.instanceName = some name ∧ w₃.job.instanceId = some id
  rw [slot]
  exact ⟨kept.trans named, known⟩

theorem construct_members {self : JobRef} {ad : JobAd} {resubmit : Bool} {j : DCloudJob}
    (readable : (DCloudJob.blank self ad resubmit).forgetHoldReason.readAd = .ok j)
    {name id : String} (parsed : DCloudJob.parseGridJobId (ad.stringOf .gridJobId) =
      .ok (some name, some id))
    (time : Int) (resource : BaseResource) (table : Utils.HashTable String JobRef) :
    (construct self ad resubmit true time resource table).job.instanceName = some name ∧
      (construct self ad resubmit true time resource table).job.instanceId = some id := by
  have same : j.jobAd.stringOf .gridJobId = ad.stringOf .gridJobId := by
    refine (readAd_kept readable (fun j => j.jobAd.stringOf .gridJobId)
      fun _ _ _ _ _ _ _ _ _ _ _ _ => rfl).trans ?_
    unfold DCloudJob.forgetHoldReason
    split
    · exact JobAd.stringOf_assign_of_ne _ _ (by decide)
    · rfl
  unfold construct
  simp only [Bool.not_true, Bool.false_eq_true, if_false, readable, same, parsed]
  exact restoreInstance_members _ name id time

/-- A restart reads back the name and the id that were saved exactly if the id has no
blank and the saved text fits the buffer. -/
theorem saved_id_restored_iff (j : DCloudJob) (saving : Int) (self : JobRef) (resubmit : Bool)
    (time : Int) (resource : BaseResource) (table : Utils.HashTable String JobRef)
      (name id : String)
    (named : name ≠ "") (oneWord : ' ' ∉ name.toList) (known : id ≠ "") (ad : JobAd)
    (saved : ad =
      (({ j with instanceName := some name, instanceId := some id }).setRemoteJobId saving).jobAd)
    (fits : ad.fitsBuff .gridResource = true) (again : DCloudJob)
    (readable : (DCloudJob.blank self ad resubmit).forgetHoldReason.readAd = .ok again) :
    (∃ w, constructInBuff self ad resubmit true time resource table = some w ∧
        w.job.instanceName = some name ∧ w.job.instanceId = some id) ↔
      ' ' ∉ id.toList ∧ ("deltacloud " ++ name ++ " " ++ id).length ≤ 16384 := by
  have text : ad.stringOf .gridJobId = DCloudJob.fullJobId (some name) (some id) := by
    rw [saved]
    exact DCloudJob.stringOf_setGridJobId _ _ saving
  have parsed := DCloudJob.parseGridJobId_fullJobId named oneWord known
  rw [← text] at parsed
  obtain ⟨nameBack, idBack⟩ := construct_members readable parsed time resource table
  have room : ad.fitsBuff .gridJobId = true ↔
      ("deltacloud " ++ name ++ " " ++ id).length ≤ 16384 := by
    have spelled : DCloudJob.fullJobId (some name) (some id) =
        "deltacloud " ++ name ++ " " ++ id := by
      simp only [DCloudJob.fullJobId, named, known, if_false]
    rw [JobAd.fitsBuff, decide_eq_true_iff, text, spelled, buffSize, Nat.lt_succ_iff]
  have made : constructInBuff self ad resubmit true time resource table =
      if ad.fitsBuff .gridJobId then some (construct self ad resubmit true time resource table)
      else none := by
    unfold constructInBuff
    simp only [Bool.not_true, Bool.false_eq_true, if_false, fits, readable]
  rw [made, ← room, ← DCloudJob.firstWord_eq_self]
  constructor
  · rintro ⟨w, built, -, idSame⟩
    split at built
    · next holds =>
        cases built
        exact ⟨Option.some.inj (idBack.symm.trans idSame), holds⟩
    · cases built
  · rintro ⟨oneWordId, holds⟩
    exact ⟨_, if_pos holds, nameBack, idBack.trans (congrArg some oneWordId)⟩

def savedAd (id : String) : JobAd :=
  (({ newJob.job with instanceName := some "vm", instanceId := some id }).setRemoteJobId 0).jobAd

/-- An id of two words comes back as its first word. -/
theorem spaced_id_cut :
    (constructInBuff 1 (savedAd "i 7") false true 0 ⟨[], [], 10⟩
      (.create (fun _ => 0) .rejectDuplicateKeys)).map
        (fun w => (w.job.instanceName, w.job.instanceId)) = some (some "vm", some "i") := by
  decide +kernel

theorem saved_id_restored_iff_plain :
    ∃ w, constructInBuff 1 (savedAd "i-7") false true 0 ⟨[], [], 10⟩
        (.create (fun _ => 0) .rejectDuplicateKeys) = some w ∧
      w.job.instanceName = some "vm" ∧ w.job.instanceId = some "i-7" := by
  have fits : (savedAd "i-7").fitsBuff .gridResource = true := by decide +kernel
  have readable : (DCloudJob.blank 1 (savedAd "i-7") false).forgetHoldReason.readAd.isOk =
      true := by
    decide +kernel
  obtain ⟨again, read⟩ : ∃ again,
      (DCloudJob.blank 1 (savedAd "i-7") false).forgetHoldReason.readAd = .ok again := by
    generalize (DCloudJob.blank 1 (savedAd "i-7") false).forgetHoldReason.readAd = r at readable
    cases r with
    | error e => cases readable
    | ok again => exact ⟨again, rfl⟩
  exact (saved_id_restored_iff newJob.job 0 1 false 0 ⟨[], [], 10⟩
    (.create (fun _ => 0) .rejectDuplicateKeys) "vm" "i-7" (by decide) (by decide) (by decide) _ rfl
    fits again read).mpr (by decide +kernel)

end World
end Condor.GridManager
