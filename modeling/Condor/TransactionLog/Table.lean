import Condor.ClassAd.ExprTree
import Condor.TransactionLog.LogRecord
import Condor.Utils.HashTable

/-! A hash table from keys to ads, and what playing a record does to it. The log does not store
dirty marks, so tables are also compared by the attributes of their ads alone. -/
namespace Condor.TransactionLog
open Condor.Utils Condor.ClassAd

abbrev Attrs := List (Bytes × ExprTree)

/-- The ClassAd library as the log uses it: its parser, its evaluator and its
conversions of numbers to text are not modelled here. -/
structure Library where
  parseExpression : Bytes → Option ExprTree
  evaluateAttrString : Attrs → Bytes → Option Bytes
  formats : Formats
  strictEvaluation : Bool

/-- A backslash that stays single: it precedes a quote that does not end the text. -/
def escapesQuote : Bytes → Bool
  | c :: d :: _ => c = 34 && d ≠ newline && d ≠ 13
  | _ => false

def convertEscapingOldToNew : Bytes → Bytes
  | [] => []
  | c :: rest =>
    if c = 92 then
      (if escapesQuote rest then [92] else [92, 92]) ++ convertEscapingOldToNew rest
    else c :: convertEscapingOldToNew rest

def Library.exprTreeToString (lib : Library) (e : ExprTree) : Bytes := unparseOld lib.formats e

/-- `compat_classad::ClassAd`: its attributes, whose names differ by more than
case, and the names in its dirty list. -/
structure CompatClassAd where
  attrs : Attrs
  dirty : List Bytes

/-- `attrList.insert`, or the replacement of the expression that is there. -/
def putAttr (name : Bytes) (e : ExprTree) : Attrs → Attrs
  | [] => [(name, e)]
  | (n, old) :: rest =>
    if sameIgnoringCase n name then (n, e) :: rest else (n, old) :: putAttr name e rest

namespace CompatClassAd

def markAttributeDirty (ad : CompatClassAd) (name : Bytes) : CompatClassAd :=
  { ad with dirty := if ad.dirty.any (sameIgnoringCase name) then ad.dirty else name :: ad.dirty }

def markAttributeClean (ad : CompatClassAd) (name : Bytes) : CompatClassAd :=
  { ad with dirty := ad.dirty.filter fun n => !sameIgnoringCase name n }

def setDirtyFlag (ad : CompatClassAd) (name : Bytes) (dirty : Bool) : CompatClassAd :=
  if dirty then ad.markAttributeDirty name else ad.markAttributeClean name

def insert (ad : CompatClassAd) (name : Bytes) (e : ExprTree) : CompatClassAd :=
  if name = [] then ad
  else ({ ad with attrs := putAttr name e ad.attrs }).markAttributeDirty name

def insertAttr (ad : CompatClassAd) (name value : Bytes) : CompatClassAd :=
  ad.insert name (.literal (.string value) .none)

def assignExpr (lib : Library) (ad : CompatClassAd) (name value : Bytes) : CompatClassAd :=
  match lib.parseExpression (convertEscapingOldToNew value) with
  | none => ad
  | some e => ad.insert name e

def delete (ad : CompatClassAd) (name : Bytes) : CompatClassAd :=
  { ad with attrs := ad.attrs.filter fun a => !sameIgnoringCase a.1 name }

def create (lib : Library) : CompatClassAd :=
  if lib.strictEvaluation then ⟨[], []⟩
  else assignExpr lib ⟨[], []⟩ (ascii "CurrentTime") (ascii "time()")

def typeName (lib : Library) (ad : CompatClassAd) (attr : String) : Bytes :=
  (lib.evaluateAttrString ad.attrs (ascii attr)).getD []

theorem attrs_setDirtyFlag (ad : CompatClassAd) (name : Bytes) (dirty : Bool) :
    (ad.setDirtyFlag name dirty).attrs = ad.attrs := by
  unfold setDirtyFlag
  split <;> rfl

theorem attrs_insert (ad : CompatClassAd) (name : Bytes) (e : ExprTree) :
    (ad.insert name e).attrs = if name = [] then ad.attrs else putAttr name e ad.attrs := by
  unfold insert
  split <;> rfl

theorem attrs_assignExpr (lib : Library) {ad ad' : CompatClassAd} (same : ad.attrs = ad'.attrs)
    (name value : Bytes) :
    (assignExpr lib ad name value).attrs = (assignExpr lib ad' name value).attrs := by
  unfold assignExpr
  split
  · exact same
  · rw [attrs_insert, attrs_insert, same]

end CompatClassAd

/-- `hashFunction( const HashKey& )`, an `unsigned int`. -/
def hashFunction (key : Bytes) : Nat :=
  (key.foldl (fun (hash : UInt32) c => (hash <<< 5) + hash + c.toUInt32) 0).toNat

abbrev ClassAdHashTable := HashTable Bytes CompatClassAd

def ClassAdHashTable.empty : ClassAdHashTable := HashTable.create hashFunction .allowDuplicateKeys

namespace LogRecord

def play (lib : Library) (table : ClassAdHashTable) : LogRecord → ClassAdHashTable
  | .newClassAd key mytype targettype =>
    let ad := ((CompatClassAd.create lib).insertAttr (ascii "MyType") mytype).insertAttr
      (ascii "TargetType") targettype
    (table.insert key ad).2
  | .destroyClassAd key =>
    match table.lookup key with
    | none => table
    | some _ => (table.remove key).2
  | .setAttribute key name value isDirty =>
    match table.lookup key with
    | none => table
    | some ad => table.assign key ((ad.assignExpr lib name value).setDirtyFlag name isDirty)
  | .deleteAttribute key name =>
    match table.lookup key with
    | none => table
    | some ad => table.assign key (ad.delete name)
  | .beginTransaction => table
  | .endTransaction => table
  | .historicalSequenceNumber .. => table

end LogRecord

def contents (table : ClassAdHashTable) : HashTable Bytes Attrs :=
  table.mapValues CompatClassAd.attrs

structure SameAds (table table' : ClassAdHashTable) : Prop where
  contents : contents table = contents table'
  duplicates : table.duplicateKeyBehavior = .allowDuplicateKeys

variable {table table' : ClassAdHashTable}

theorem SameAds.duplicates' (h : SameAds table table') :
    table'.duplicateKeyBehavior = .allowDuplicateKeys :=
  (congrArg HashTable.duplicateKeyBehavior h.contents).symm.trans h.duplicates

theorem SameAds.lookup_cases (h : SameAds table table') (key : Bytes) :
    (table.lookup key = none ∧ table'.lookup key = none) ∨
      ∃ ad ad', table.lookup key = some ad ∧ table'.lookup key = some ad' ∧
        ad.attrs = ad'.attrs := by
  have found : (table.lookup key).map CompatClassAd.attrs =
      (table'.lookup key).map CompatClassAd.attrs := by
    rw [← HashTable.lookup_mapValues, ← HashTable.lookup_mapValues]
    exact congrArg (·.lookup key) h.contents
  cases here : table.lookup key with
  | none =>
    rw [here] at found
    exact .inl ⟨rfl, Option.map_eq_none_iff.mp found.symm⟩
  | some ad =>
    rw [here] at found
    obtain ⟨ad', here', same⟩ := Option.map_eq_some_iff.mp found.symm
    exact .inr ⟨ad, ad', rfl, here', same.symm⟩

theorem SameAds.assign (h : SameAds table table') (key : Bytes)
    {ad ad' : CompatClassAd} (same : ad.attrs = ad'.attrs) :
    SameAds (table.assign key ad) (table'.assign key ad') := by
  refine ⟨?_, h.duplicates⟩
  unfold TransactionLog.contents
  rw [HashTable.mapValues_assign, HashTable.mapValues_assign, same]
  exact congrArg (·.assign key ad'.attrs) h.contents

theorem SameAds.play (lib : Library) (h : SameAds table table')
    (r : LogRecord) : SameAds (r.stored.play lib table) (r.play lib table') := by
  cases r with
  | newClassAd key mytype targettype =>
    refine ⟨?_, (HashTable.insert_duplicateKeyBehavior _ _ _).trans h.duplicates⟩
    simp only [LogRecord.stored, LogRecord.play, TransactionLog.contents]
    rw [HashTable.mapValues_insert _ h.duplicates, HashTable.mapValues_insert _ h.duplicates']
    exact congrArg (fun t => (HashTable.insert t key _).2) h.contents
  | destroyClassAd key =>
    simp only [LogRecord.stored, LogRecord.play]
    rcases h.lookup_cases key with ⟨absent, absent'⟩ | ⟨ad, ad', here, here', -⟩
    · rw [absent, absent']
      exact h
    · rw [here, here']
      refine ⟨?_, (HashTable.remove_duplicateKeyBehavior _ _).trans h.duplicates⟩
      unfold TransactionLog.contents
      rw [HashTable.mapValues_remove, HashTable.mapValues_remove]
      exact congrArg (fun t => (HashTable.remove t key).2) h.contents
  | setAttribute key name value isDirty =>
    simp only [LogRecord.stored, LogRecord.play]
    rcases h.lookup_cases key with ⟨absent, absent'⟩ | ⟨ad, ad', here, here', same⟩
    · rw [absent, absent']
      exact h
    · rw [here, here']
      refine h.assign key ?_
      rw [CompatClassAd.attrs_setDirtyFlag, CompatClassAd.attrs_setDirtyFlag]
      exact CompatClassAd.attrs_assignExpr lib same name value
  | deleteAttribute key name =>
    simp only [LogRecord.stored, LogRecord.play]
    rcases h.lookup_cases key with ⟨absent, absent'⟩ | ⟨ad, ad', here, here', same⟩
    · rw [absent, absent']
      exact h
    · rw [here, here']
      exact h.assign key (by rw [CompatClassAd.delete, CompatClassAd.delete, same])
  | beginTransaction => exact h
  | endTransaction => exact h
  | historicalSequenceNumber number timestamp => exact h

theorem SameAds.empty : SameAds .empty .empty := ⟨rfl, rfl⟩

theorem SameAds.playAll (lib : Library) (h : SameAds table table') (rs : List LogRecord) :
    SameAds ((rs.map LogRecord.stored).foldl (LogRecord.play lib) table)
      (rs.foldl (LogRecord.play lib) table') := by
  induction rs generalizing table table' with
  | nil => exact h
  | cons r rs ih => exact ih (h.play lib r)

end Condor.TransactionLog
