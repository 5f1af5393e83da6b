import Condor.TransactionLog.ClassAdLog

/-! A table is seen through a key and an attribute name. Playing a record changes that view in a way
that depends on the view alone. -/
namespace Condor.TransactionLog
open Condor.Utils Condor.ClassAd

variable {s t : Bytes} {r : LogRecord}

theorem sameIgnoringCase_iff :
    sameIgnoringCase s t = true ↔ s.map toLower = t.map toLower := decide_eq_true_iff

theorem sameIgnoringCase_congr (same : sameIgnoringCase s t = true) (u : Bytes) :
    sameIgnoringCase u s = sameIgnoringCase u t := by
  rw [sameIgnoringCase, sameIgnoringCase, sameIgnoringCase_iff.mp same]

theorem sameIgnoringCase_comm (s t : Bytes) : sameIgnoringCase s t = sameIgnoringCase t s :=
  decide_eq_decide.mpr eq_comm

theorem sameIgnoringCase_left {s t : Bytes} (same : sameIgnoringCase s t = true) (name : Bytes) :
    sameIgnoringCase s name = sameIgnoringCase t name := by
  rw [sameIgnoringCase_comm, sameIgnoringCase_congr same, sameIgnoringCase_comm]

theorem sameIgnoringCase_nil : sameIgnoringCase [] s = true ↔ s = [] := by
  rw [sameIgnoringCase_iff, List.map_nil, eq_comm, List.map_eq_nil_iff]

def attrOf (name : Bytes) (attrs : Attrs) : Option ExprTree :=
  (attrs.find? fun a => sameIgnoringCase a.1 name).map Prod.snd

theorem attrOf_putAttr (n name : Bytes) (e : ExprTree) (attrs : Attrs) :
    attrOf name (putAttr n e attrs) =
      if sameIgnoringCase n name then some e else attrOf name attrs := by
  induction attrs with
  | nil => by_cases here : sameIgnoringCase n name <;> simp [putAttr, attrOf, here]
  | cons a attrs ih =>
    simp only [attrOf] at ih ⊢
    rw [putAttr]
    by_cases replaced : sameIgnoringCase a.1 n = true
    · -- The name that is there is kept, and finds what the new one finds.
      have alike := sameIgnoringCase_left replaced name
      rw [if_pos replaced]
      by_cases here : sameIgnoringCase n name = true <;> simp [alike, here]
    · rw [if_neg replaced]
      by_cases first : sameIgnoringCase a.1 name = true
      · have other : sameIgnoringCase n name = false := by
          rw [← sameIgnoringCase_congr first, sameIgnoringCase_comm]
          exact eq_false_of_ne_true replaced
        simp [first, other]
      · simp only [List.find?_cons, first, ih]

theorem attrOf_filter (n name : Bytes) (attrs : Attrs) :
    attrOf name (attrs.filter fun a => !sameIgnoringCase a.1 n) =
      if sameIgnoringCase n name then none else attrOf name attrs := by
  induction attrs with
  | nil => simp [attrOf]
  | cons a attrs ih =>
    simp only [attrOf] at ih ⊢
    by_cases dropped : sameIgnoringCase a.1 n = true
    · have alike := sameIgnoringCase_left dropped name
      rw [List.filter_cons_of_neg (by simp [dropped]), ih]
      by_cases here : sameIgnoringCase n name = true <;> simp [alike, here]
    · rw [List.filter_cons_of_pos (by simp [dropped])]
      by_cases first : sameIgnoringCase a.1 name = true
      · have other : sameIgnoringCase n name = false := by
          rw [← sameIgnoringCase_congr first, sameIgnoringCase_comm]
          exact eq_false_of_ne_true dropped
        simp [first, other]
      · simp only [List.find?_cons, first, ih]

def Library.exprOf (lib : Library) (value : Bytes) : Option ExprTree :=
  lib.parseExpression (convertEscapingOldToNew value)

namespace CompatClassAd

def attr (ad : CompatClassAd) (name : Bytes) : Option ExprTree := attrOf name ad.attrs

def typed (lib : Library) (mytype targettype : Bytes) : CompatClassAd :=
  ((create lib).insertAttr (ascii "MyType") mytype).insertAttr (ascii "TargetType") targettype

variable (ad : CompatClassAd)

@[simp] theorem attr_setDirtyFlag (n : Bytes) (dirty : Bool) (name : Bytes) :
    (ad.setDirtyFlag n dirty).attr name = ad.attr name := by
  rw [attr, attrs_setDirtyFlag, attr]

theorem attr_insert (n : Bytes) (e : ExprTree) (name : Bytes) :
    (ad.insert n e).attr name =
      if n ≠ [] ∧ sameIgnoringCase n name = true then some e else ad.attr name := by
  rw [attr, attrs_insert]
  by_cases empty : n = []
  · simp [empty, attr]
  · simp [empty, attr, attrOf_putAttr]

theorem attr_assignExpr (lib : Library) (ad : CompatClassAd) (n value name : Bytes) :
    (ad.assignExpr lib n value).attr name =
      if n ≠ [] ∧ sameIgnoringCase n name = true then (lib.exprOf value).or (ad.attr name)
      else ad.attr name := by
  unfold assignExpr Library.exprOf
  cases lib.parseExpression (convertEscapingOldToNew value) with
  | none => simp
  | some e => simp only [attr_insert, Option.some_or]

theorem attr_delete (n name : Bytes) :
    (ad.delete n).attr name = if sameIgnoringCase n name then none else ad.attr name :=
  attrOf_filter n name ad.attrs

theorem attr_typed (lib : Library) (mytype targettype name : Bytes) :
    (typed lib mytype targettype).attr name =
      if sameIgnoringCase (ascii "TargetType") name then some (.literal (.string targettype) .none)
      else if sameIgnoringCase (ascii "MyType") name then some (.literal (.string mytype) .none)
      else if lib.strictEvaluation = false ∧ sameIgnoringCase (ascii "CurrentTime") name = true then
        lib.exprOf (ascii "time()")
      else none := by
  have target : ascii "TargetType" ≠ [] := by decide
  have my : ascii "MyType" ≠ [] := by decide
  have time : ascii "CurrentTime" ≠ [] := by decide
  have nothing : attr ⟨[], []⟩ name = none := rfl
  have created : (create lib).attr name =
      if lib.strictEvaluation = false ∧ sameIgnoringCase (ascii "CurrentTime") name = true then
        lib.exprOf (ascii "time()")
      else none := by
    unfold create
    cases lib.strictEvaluation with
    | true => simp [nothing]
    | false =>
      simp only [Bool.false_eq_true, if_false, attr_assignExpr, nothing, Option.or_none, true_and,
        time, ne_eq, not_false_eq_true]
  simp only [typed, insertAttr, attr_insert, created, target, my, ne_eq, not_false_eq_true,
    true_and]

end CompatClassAd

/-- A table seen through a key and an attribute name: `none` without the ad, `some none`
without the attribute. -/
def view (table : ClassAdHashTable) (key name : Bytes) : Option (Option ExprTree) :=
  (table.lookup key).map fun ad => ad.attr name

def viewStep (lib : Library) (key name : Bytes) (seen : Option (Option ExprTree)) :
    LogRecord → Option (Option ExprTree)
  | .newClassAd k mytype targettype =>
    if k = key then some ((CompatClassAd.typed lib mytype targettype).attr name) else seen
  | .destroyClassAd k => if k = key then none else seen
  | .setAttribute k n value _ =>
    if k = key ∧ n ≠ [] ∧ sameIgnoringCase n name = true then
      seen.map fun old => (lib.exprOf value).or old
    else seen
  | .deleteAttribute k n =>
    if k = key ∧ sameIgnoringCase n name = true then seen.map fun _ => none else seen
  | _ => seen

/-- `NewClassAd` is only issued for a key that does not exist. -/
def LogRecord.Fresh (table : ClassAdHashTable) : LogRecord → Prop
  | .newClassAd key .. => table.lookup key = none
  | _ => True

def AllFresh (lib : Library) : ClassAdHashTable → List LogRecord → Prop
  | _, [] => True
  | table, r :: rs => r.Fresh table ∧ AllFresh lib (r.play lib table) rs

instance (table : ClassAdHashTable) : (r : LogRecord) → Decidable (r.Fresh table)
  | .newClassAd key .. => Option.decidableEqNone (table.lookup key)
  | .destroyClassAd .. | .setAttribute .. | .deleteAttribute .. => .isTrue trivial
  | .beginTransaction | .endTransaction | .historicalSequenceNumber .. => .isTrue trivial

instance decidableAllFresh (lib : Library) :
    (table : ClassAdHashTable) → (rs : List LogRecord) → Decidable (AllFresh lib table rs)
  | _, [] => .isTrue trivial
  | table, r :: rs =>
    have := decidableAllFresh lib (r.play lib table) rs
    inferInstanceAs (Decidable (_ ∧ _))

variable {table : ClassAdHashTable}

theorem view_assign {k : Bytes} {ad : CompatClassAd}
    (here : table.lookup k = some ad) (ad' : CompatClassAd) (key name : Bytes) :
    view (table.assign k ad') key name =
      if k = key then some (ad'.attr name) else view table key name := by
  unfold view
  rw [HashTable.lookup_assign]
  by_cases same : key = k
  · simp [same, here]
  · simp [same, Ne.symm same]

def LogRecord.key : LogRecord → Bytes
  | .newClassAd key .. => key
  | .destroyClassAd key => key
  | .setAttribute key .. => key
  | .deleteAttribute key _ => key
  | _ => []

variable (lib : Library)

/-- A record for an ad that is not there changes nothing unless it creates the ad. -/
theorem viewStep_absent (absent : table.lookup r.key = none)
    (created : ∀ m t, r ≠ .newClassAd r.key m t) (key name : Bytes) :
    viewStep lib key name (view table key name) r = view table key name := by
  have gone : ∀ k, table.lookup k = none → view table k name = none := by
    intro k missing
    rw [view, missing]
    rfl
  cases r with
  | newClassAd k m t => exact absurd rfl (created m t)
  | destroyClassAd k =>
    simp only [viewStep]
    split
    · next same => rw [← same, gone k absent]
    · rfl
  | setAttribute k n value isDirty =>
    simp only [viewStep]
    split
    · next here => rw [← here.1, gone k absent]; rfl
    · rfl
  | deleteAttribute k n =>
    simp only [viewStep]
    split
    · next here => rw [← here.1, gone k absent]; rfl
    · rfl
  | beginTransaction => rfl
  | endTransaction => rfl
  | historicalSequenceNumber number timestamp => rfl

theorem play_view (chained : table.Chained) (fresh : r.Fresh table) :
    (r.play lib table).Chained ∧
      ∀ key name,
        view (r.play lib table) key name = viewStep lib key name (view table key name) r := by
  cases r with
  | newClassAd k mytype targettype =>
    obtain ⟨-, kept, found⟩ :=
      chained.insert_absent fresh (CompatClassAd.typed lib mytype targettype)
    refine ⟨kept, fun key name => ?_⟩
    change ((table.insert k (CompatClassAd.typed lib mytype targettype)).2.lookup key).map _ = _
    rw [found key, viewStep]
    by_cases same : key = k
    · simp [same]
    · simp [same, Ne.symm same, view]
  | destroyClassAd k =>
    obtain ⟨kept, found⟩ := chained.remove k
    simp only [LogRecord.play]
    cases here : table.lookup k with
    | none =>
      refine ⟨chained, fun key name => ?_⟩
      exact (viewStep_absent lib (r := .destroyClassAd k) here
        (fun _ _ => LogRecord.noConfusion) key name).symm
    | some ad =>
      refine ⟨kept, fun key name => ?_⟩
      simp only [viewStep, view, found]
      by_cases same : key = k
      · simp [same]
      · simp [same, Ne.symm same]
  | setAttribute k n value isDirty =>
    simp only [LogRecord.play]
    cases here : table.lookup k with
    | none =>
      refine ⟨chained, fun key name => ?_⟩
      exact (viewStep_absent lib (r := .setAttribute k n value isDirty) here
        (fun _ _ => LogRecord.noConfusion) key name).symm
    | some ad =>
      refine ⟨chained.assign _ _, fun key name => ?_⟩
      rw [view_assign here, CompatClassAd.attr_setDirtyFlag, CompatClassAd.attr_assignExpr,
        viewStep]
      by_cases same : k = key
      · subst same
        simp only [view, here, Option.map_some, true_and, if_true]
        split <;> rfl
      · simp [same]
  | deleteAttribute k n =>
    simp only [LogRecord.play]
    cases here : table.lookup k with
    | none =>
      refine ⟨chained, fun key name => ?_⟩
      exact (viewStep_absent lib (r := .deleteAttribute k n) here
        (fun _ _ => LogRecord.noConfusion) key name).symm
    | some ad =>
      refine ⟨chained.assign _ _, fun key name => ?_⟩
      rw [view_assign here, CompatClassAd.attr_delete, viewStep]
      by_cases same : k = key
      · subst same
        simp only [view, here, Option.map_some, true_and, if_true]
        split <;> rfl
      · simp [same]
  | beginTransaction => exact ⟨chained, fun _ _ => rfl⟩
  | endTransaction => exact ⟨chained, fun _ _ => rfl⟩
  | historicalSequenceNumber number timestamp => exact ⟨chained, fun _ _ => rfl⟩

theorem playAll_view (chained : table.Chained) {rs : List LogRecord} (fresh : AllFresh lib table rs)
    :
    (rs.foldl (LogRecord.play lib) table).Chained ∧
      ∀ key name, view (rs.foldl (LogRecord.play lib) table) key name =
        rs.foldl (viewStep lib key name) (view table key name) := by
  induction rs generalizing table with
  | nil => exact ⟨chained, fun _ _ => rfl⟩
  | cons r rs ih =>
    obtain ⟨kept, stepped⟩ := play_view lib chained fresh.1
    obtain ⟨chained', viewed⟩ := ih kept fresh.2
    refine ⟨chained', fun key name => ?_⟩
    rw [List.foldl_cons, List.foldl_cons, viewed, stepped]

end Condor.TransactionLog
