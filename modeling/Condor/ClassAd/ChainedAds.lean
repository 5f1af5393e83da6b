import Mathlib.Data.List.AList
import Condor.ClassAd.Operators

/-! `Lookup`, `Insert`, `Delete` and `CopyFromChain` of ads that may be chained to a parent ad. The
objects are known by their addresses. -/
namespace Condor.ClassAd
open Condor.Utils

abbrev AttrKey := { key : Bytes // key.map toLower = key }

theorem toLower_toLower (c : UInt8) : toLower (toLower c) = toLower c := by
  unfold toLower
  split_ifs with first second
  · simp only [Bool.and_eq_true, decide_eq_true_eq, UInt8.le_iff_toNat_le, UInt8.toNat_add,
      UInt8.reduceToNat] at first second
    omega
  · rfl
  · rfl

def attrKey (name : Bytes) : AttrKey :=
  ⟨name.map toLower, by simp [Function.comp_def, toLower_toLower]⟩

variable (key : AttrKey)

theorem attrKey_val : attrKey key.val = key := Subtype.ext key.property

/-- An ad. `Insert` is the only way into `attrList`, and refuses the empty name. -/
structure ChainedAd (A : Type) where
  attrList : AList fun _ : AttrKey => ExprTree
  named : attrKey [] ∉ attrList
  chainedParentAd : Option A

section Source
variable {A : Type} [DecidableEq A]

abbrev Ads (A : Type) := A → ChainedAd A

def lookup (ads : Ads A) : Nat → A → Bytes → Option (Option ExprTree)
  | 0, _, _ => none
  | fuel + 1, this, name =>
    match (ads this).attrList.lookup (attrKey name), (ads this).chainedParentAd with
    | some tree, _ => some (some tree)
    | none, some parent => lookup ads fuel parent name
    | none, none => some none

theorem attrKey_eq_nil {name : Bytes} : attrKey [] = attrKey name ↔ name = [] := by
  simp [attrKey, Subtype.ext_iff, eq_comm]

def ChainedAd.put (ad : ChainedAd A) (name : Bytes) (tree : ExprTree) (named : name ≠ []) :
    ChainedAd A where
  attrList := ad.attrList.insert (attrKey name) tree
  named := by simp [AList.mem_insert, attrKey_eq_nil, named, ad.named]
  chainedParentAd := ad.chainedParentAd

def ChainedAd.remove (ad : ChainedAd A) (name : Bytes) : ChainedAd A where
  attrList := ad.attrList.erase (attrKey name)
  named := by simp [AList.mem_erase, ad.named]
  chainedParentAd := ad.chainedParentAd

def insert (ads : Ads A) (this : A) (name : Bytes) : Option ExprTree → Bool × Ads A
  | none => (false, ads)
  | some tree =>
    if named : name = [] then (false, ads)
    else (true, Function.update ads this ((ads this).put name tree named))

def undefinedLiteral : ExprTree := .literal .undefined .none

def delete (fuel : Nat) (ads : Ads A) (this : A) (name : Bytes) : Option (Bool × Ads A) :=
  let found := ((ads this).attrList.lookup (attrKey name)).isSome
  let ads := if found then Function.update ads this ((ads this).remove name) else ads
  match (ads this).chainedParentAd with
  | none => some (found, ads)
  | some parent =>
    (lookup ads fuel parent name).map fun inherited =>
      if inherited.isSome then (true, (insert ads this name (some undefinedLiteral)).2)
      else (found, ads)

def updateWith (copy : ExprTree → ExprTree) (this : A) :
    List (Sigma fun _ : AttrKey => ExprTree) → Ads A → Bool × Ads A
  | [], ads => (true, ads)
  | ⟨key, tree⟩ :: rest, ads =>
    match insert ads this key.val (some (copy tree)) with
    | (true, ads) => updateWith copy this rest ads
    | (false, ads) => (false, ads)

def update (copy : ExprTree → ExprTree) (ads : Ads A) (this ad : A) : Bool × Ads A :=
  updateWith copy this (ads ad).attrList.entries ads

def updateFromChain (copy : ExprTree → ExprTree) (this : A) :
    Nat → Ads A → A → Option (Bool × Ads A)
  | 0, _, _ => none
  | fuel + 1, ads, ad =>
    match (ads ad).chainedParentAd with
    | none => some (update copy ads this ad)
    | some parent =>
      match updateFromChain copy this fuel ads parent with
      | some (true, ads) => some (update copy ads this ad)
      | stopped => stopped

def ChainedAd.clear : ChainedAd A := ⟨∅, AList.notMem_empty _, none⟩

def copyFromChain (copy : ExprTree → ExprTree) (fuel : Nat) (ads : Ads A) (this ad : A) :
    Option (Bool × Ads A) :=
  if this = ad then some (false, ads)
  else updateFromChain copy this fuel (Function.update ads this .clear) ad

inductive Edit where
  | insert (name : Bytes) (tree : ExprTree)
  | delete (name : Bytes)

def Edit.run (fuel : Nat) (this : A) (ads : Ads A) : Edit → Option (Ads A)
  | .insert name tree => some (ClassAd.insert ads this name (some tree)).2
  | .delete name => (ClassAd.delete fuel ads this name).map Prod.snd

def runEdits (fuel : Nat) (this : A) (ads : Ads A) (edits : List Edit) : Option (Ads A) :=
  edits.foldlM (Edit.run fuel this) ads

end Source

abbrev Definitions := AttrKey → Option ExprTree

def overlay (own inherited : Definitions) : Definitions := fun key => (own key).or (inherited key)

def Edit.apply (inherited own : Definitions) : Edit → Definitions
  | .insert name tree => if name = [] then own else Function.update own (attrKey name) (some tree)
  | .delete name =>
    Function.update own (attrKey name) ((inherited (attrKey name)).map fun _ => undefinedLiteral)

section Chains
variable {A : Type} {ads ads' : Ads A} {this : A} {ancestors : List A} {name : Bytes} {fuel : Nat}

inductive Chain (ads : Ads A) : A → List A → Prop
  | root {this : A} : (ads this).chainedParentAd = none → Chain ads this []
  | link {this parent : A} {rest : List A} : (ads this).chainedParentAd = some parent →
      Chain ads parent rest → Chain ads this (parent :: rest)

def definitions (ads : Ads A) (this : A) : Definitions := fun key => (ads this).attrList.lookup key

def nearest (ads : Ads A) (chain : List A) : Definitions :=
  fun key => chain.findSome? fun ad => definitions ads ad key

theorem nearest_cons (ads : Ads A) (this : A) (rest : List A) :
    nearest ads (this :: rest) = overlay (definitions ads this) (nearest ads rest) := by
  funext key
  simp only [nearest, overlay, List.findSome?_cons]
  cases definitions ads this key <;> rfl

theorem nearest_empty (ads : Ads A) (chain : List A) : nearest ads chain (attrKey []) = none := by
  induction chain with
  | nil => rfl
  | cons first rest ih =>
    rw [nearest_cons, overlay, ih, definitions, AList.lookup_eq_none.mpr (ads first).named]
    rfl

theorem nearest_congr (same : ∀ ad ∈ ancestors, (ads' ad).attrList = (ads ad).attrList) :
    nearest ads' ancestors = nearest ads ancestors := by
  induction ancestors with
  | nil => rfl
  | cons first rest ih =>
    have own : definitions ads' first = definitions ads first := by
      funext key
      rw [definitions, definitions, same first List.mem_cons_self]
    rw [nearest_cons, nearest_cons, own,
      ih fun ad member => same ad (List.mem_cons_of_mem _ member)]

theorem Chain.congr (chain : Chain ads this ancestors)
    (same : ∀ ad ∈ this :: ancestors, (ads' ad).chainedParentAd = (ads ad).chainedParentAd) :
    Chain ads' this ancestors := by
  induction chain with
  | root last => exact .root ((same _ List.mem_cons_self).trans last)
  | link next above ih =>
    refine .link ((same _ List.mem_cons_self).trans next) (ih fun ad member => ?_)
    exact same ad (List.mem_cons_of_mem _ member)

theorem Chain.unique {others : List A} (chain : Chain ads this ancestors)
    (other : Chain ads this others) : others = ancestors := by
  induction chain generalizing others with
  | root last =>
    cases other with
    | root => rfl
    | link next above => simp [last] at next
  | link next above ih =>
    cases other with
    | root last => simp [last] at next
    | link next' above' =>
      obtain rfl : _ = _ := Option.some.inj (next.symm.trans next')
      rw [ih above']

theorem Chain.of_mem {ad : A} (chain : Chain ads this ancestors) (member : ad ∈ ancestors) :
    ∃ above, Chain ads ad above ∧ above.length < ancestors.length := by
  induction chain with
  | root last => cases member
  | @link this parent rest next above ih =>
    rcases List.mem_cons.mp member with rfl | member
    · exact ⟨rest, above, by simp⟩
    · obtain ⟨higher, chain, less⟩ := ih member
      exact ⟨higher, chain, by simp only [List.length_cons]; omega⟩

theorem Chain.not_mem (chain : Chain ads this ancestors) : this ∉ ancestors := by
  intro member
  obtain ⟨above, again, less⟩ := chain.of_mem member
  rw [chain.unique again] at less
  omega

theorem lookup_chain (chain : Chain ads this ancestors) (enough : ancestors.length < fuel) :
    lookup ads fuel this name = some (nearest ads (this :: ancestors) (attrKey name)) := by
  induction chain generalizing fuel with
  | root last =>
    cases fuel with
    | zero => cases enough
    | succ fuel =>
      simp only [lookup, last, nearest_cons, overlay, definitions]
      cases (ads _).attrList.lookup (attrKey name) <;> rfl
  | link next above ih =>
    cases fuel with
    | zero => cases enough
    | succ fuel =>
      rw [nearest_cons]
      simp only [lookup, next, overlay, definitions]
      cases (ads _).attrList.lookup (attrKey name) with
      | some tree => rfl
      | none => exact ih (Nat.lt_of_succ_lt_succ enough)

end Chains

section Rewriting
variable {A : Type} {ads ads' : Ads A} {this : A} {ancestors : List A}

/-- Only the definitions of one ad differ, and they are these. -/
structure Rewritten (ads ads' : Ads A) (this : A) (own : Definitions) : Prop where
  others : ∀ ad, ad ≠ this → ads' ad = ads ad
  parent : (ads' this).chainedParentAd = (ads this).chainedParentAd
  own : definitions ads' this = own

theorem Rewritten.refl (ads : Ads A) (this : A) : Rewritten ads ads this (definitions ads this) :=
  ⟨fun _ _ => rfl, rfl, rfl⟩

theorem Rewritten.trans {ads'' : Ads A} {own own' : Definitions}
    (first : Rewritten ads ads' this own) (second : Rewritten ads' ads'' this own') :
    Rewritten ads ads'' this own' :=
  ⟨fun ad other => (second.others ad other).trans (first.others ad other),
    second.parent.trans first.parent, second.own⟩

theorem Rewritten.chain {own : Definitions} (rewritten : Rewritten ads ads' this own)
    (chain : Chain ads this ancestors) :
    Chain ads' this ancestors ∧ nearest ads' ancestors = nearest ads ancestors := by
  constructor
  · refine chain.congr fun ad member => ?_
    by_cases same : ad = this
    · rw [same, rewritten.parent]
    · rw [rewritten.others ad same]
  · refine nearest_congr fun ad member => ?_
    rw [rewritten.others ad fun same => chain.not_mem (same ▸ member)]

end Rewriting

section Edits
variable {A : Type} [DecidableEq A] {ads ads' : Ads A} {this : A} {ancestors : List A}
  {name : Bytes} {tree : ExprTree} {fuel : Nat}

theorem update_rewritten {ad : ChainedAd A}
    (parent : ad.chainedParentAd = (ads this).chainedParentAd) :
    Rewritten ads (Function.update ads this ad) this fun key => ad.attrList.lookup key := by
  refine ⟨fun other different => Function.update_of_ne different _ _, ?_, ?_⟩
  · rw [Function.update_self, parent]
  · unfold definitions
    rw [Function.update_self]

theorem lookup_insert (list : AList fun _ : AttrKey => ExprTree) :
    (fun x => (list.insert key tree).lookup x) =
      Function.update (fun x => list.lookup x) key (some tree) := by
  funext x
  by_cases same : x = key
  · subst same
    rw [AList.lookup_insert, Function.update_self]
  · rw [AList.lookup_insert_ne same, Function.update_of_ne same]

theorem lookup_erase (list : AList fun _ : AttrKey => ExprTree) :
    (fun x => (list.erase key).lookup x) = Function.update (fun x => list.lookup x) key none := by
  funext x
  by_cases same : x = key
  · subst same
    rw [AList.lookup_erase, Function.update_self]
  · rw [AList.lookup_erase_ne same, Function.update_of_ne same]

theorem insert_rewritten (ads : Ads A) (this : A) (tree : ExprTree) (named : name ≠ []) :
    (insert ads this name (some tree)).1 = true ∧
      Rewritten ads (insert ads this name (some tree)).2 this
        (Function.update (definitions ads this) (attrKey name) (some tree)) := by
  rw [insert, dif_neg named]
  refine ⟨rfl, ?_⟩
  unfold definitions
  rw [← lookup_insert]
  exact update_rewritten rfl

theorem remove_rewritten (ads : Ads A) (this : A) (name : Bytes) :
    Rewritten ads (Function.update ads this ((ads this).remove name)) this
      (Function.update (definitions ads this) (attrKey name) none) := by
  unfold definitions
  rw [← lookup_erase]
  exact update_rewritten rfl

theorem removeIfFound_rewritten (ads : Ads A) (this : A) (name : Bytes) :
    Rewritten ads (if ((ads this).attrList.lookup (attrKey name)).isSome then
      Function.update ads this ((ads this).remove name) else ads) this
        (Function.update (definitions ads this) (attrKey name) none) := by
  split_ifs with found
  · exact remove_rewritten ads this name
  · have absent : definitions ads this (attrKey name) = none := by simpa [definitions] using found
    rw [← absent, Function.update_eq_self]
    exact Rewritten.refl ads this

theorem delete_rewritten (chain : Chain ads this ancestors) (enough : ancestors.length < fuel)
    (name : Bytes) :
    ∃ found ads', delete fuel ads this name = some (found, ads') ∧
      Rewritten ads ads' this (Edit.apply (nearest ads ancestors) (definitions ads this)
        (.delete name)) := by
  have removed := removeIfFound_rewritten ads this name
  unfold delete
  simp only [Edit.apply]
  generalize (if ((ads this).attrList.lookup (attrKey name)).isSome then
    Function.update ads this ((ads this).remove name) else ads) = mid at removed ⊢
  obtain ⟨above, inherits⟩ := removed.chain chain
  cases above with
  | root last =>
    simp only [last]
    exact ⟨_, _, rfl, removed⟩
  | @link _ parent rest next above =>
    have looked : lookup mid fuel parent name =
        some (nearest ads (parent :: rest) (attrKey name)) := by
      rw [← inherits]
      exact lookup_chain above (by simp only [List.length_cons] at enough; omega)
    simp only [next, looked, Option.map_some]
    cases inherited : nearest ads (parent :: rest) (attrKey name) with
    | none => exact ⟨_, _, rfl, removed⟩
    | some tree =>
      have named : name ≠ [] := by
        rintro rfl
        rw [nearest_empty] at inherited
        cases inherited
      refine ⟨_, _, rfl, ?_⟩
      have marked := (insert_rewritten mid this undefinedLiteral named).2
      rw [removed.own, Function.update_idem] at marked
      exact removed.trans marked

/-- One call: it returns, changes its own ad only, and acts on the definitions as it should. -/
theorem Edit.run_rewritten (chain : Chain ads this ancestors) (enough : ancestors.length < fuel)
    (edit : Edit) :
    ∃ ads', edit.run fuel this ads = some ads' ∧
      Rewritten ads ads' this (edit.apply (nearest ads ancestors) (definitions ads this)) := by
  cases edit with
  | insert name tree =>
    refine ⟨_, rfl, ?_⟩
    by_cases named : name = []
    · subst named
      exact Rewritten.refl ads this
    · simpa [Edit.apply, named] using (insert_rewritten ads this tree named).2
  | delete name =>
    obtain ⟨found, ads', deleted, rewritten⟩ := delete_rewritten chain enough name
    exact ⟨ads', by rw [Edit.run, deleted]; rfl, rewritten⟩

theorem runEdits_rewritten (chain : Chain ads this ancestors) (enough : ancestors.length < fuel)
    (edits : List Edit) :
    ∃ ads', runEdits fuel this ads edits = some ads' ∧
      Rewritten ads ads' this
        (edits.foldl (Edit.apply (nearest ads ancestors)) (definitions ads this)) := by
  induction edits generalizing ads with
  | nil => exact ⟨ads, rfl, Rewritten.refl ads this⟩
  | cons edit edits ih =>
    obtain ⟨mid, ran, first⟩ := edit.run_rewritten chain enough
    obtain ⟨above, inherits⟩ := first.chain chain
    obtain ⟨ads', rest, second⟩ := ih above
    rw [inherits, first.own] at second
    refine ⟨ads', ?_, first.trans second⟩
    rw [runEdits, List.foldlM_cons, ran]
    exact rest

end Edits

section Copies
variable {A : Type} [DecidableEq A] {ads ads' : Ads A} {this ad : A} {ancestors : List A}
  {fuel : Nat} (copy : ExprTree → ExprTree)

def copied (own : Definitions) : Definitions := fun key => (own key).map copy

theorem overlay_assoc (first second third : Definitions) :
    overlay (overlay first second) third = overlay first (overlay second third) := by
  funext key
  exact Option.or_assoc

theorem copied_overlay (own inherited : Definitions) :
    copied copy (overlay own inherited) = overlay (copied copy own) (copied copy inherited) := by
  funext key
  simp only [copied, overlay]
  cases own key <;> rfl

theorem updateWith_rewritten (ads : Ads A) (this : A)
    {entries : List (Sigma fun _ : AttrKey => ExprTree)}
    (distinct : entries.NodupKeys) (named : attrKey [] ∉ entries.keys) :
    (updateWith copy this entries ads).1 = true ∧
      Rewritten ads (updateWith copy this entries ads).2 this
        (overlay (copied copy fun key => entries.dlookup key) (definitions ads this)) := by
  induction entries generalizing ads with
  | nil => exact ⟨rfl, Rewritten.refl ads this⟩
  | cons entry rest ih =>
    obtain ⟨key, tree⟩ := entry
    rw [List.keys_cons, List.mem_cons, not_or] at named
    rw [List.nodupKeys_cons] at distinct
    have nonempty : key.val ≠ [] := by
      intro empty
      exact named.1 (by rw [← attrKey_val key, empty])
    obtain ⟨inserted, first⟩ := insert_rewritten ads this (copy tree) nonempty
    have step : updateWith copy this (⟨key, tree⟩ :: rest) ads =
        updateWith copy this rest (insert ads this key.val (some (copy tree))).2 := by
      rw [updateWith]
      generalize insert ads this key.val (some (copy tree)) = result at inserted
      obtain ⟨ok, mid⟩ := result
      cases inserted
      rfl
    obtain ⟨updated, second⟩ := ih (insert ads this key.val (some (copy tree))).2
      distinct.2 named.2
    rw [step]
    refine ⟨updated, ?_⟩
    have own : overlay (copied copy fun x => rest.dlookup x)
        (Function.update (definitions ads this) key (some (copy tree))) =
        overlay (copied copy fun x => List.dlookup x (⟨key, tree⟩ :: rest))
          (definitions ads this) := by
      funext x
      simp only [overlay, copied]
      by_cases same : x = key
      · subst same
        rw [List.dlookup_eq_none.mpr distinct.1, Function.update_self, List.dlookup_cons_eq]
        rfl
      · rw [Function.update_of_ne same, List.dlookup_cons_ne _ _ same]
    have whole := first.trans second
    rwa [first.own, attrKey_val, own] at whole

theorem update_copies (ads : Ads A) (this ad : A) :
    ∃ ads', update copy ads this ad = (true, ads') ∧
      Rewritten ads ads' this
        (overlay (copied copy (definitions ads ad)) (definitions ads this)) := by
  obtain ⟨updated, rewritten⟩ :=
    updateWith_rewritten copy ads this (ads ad).attrList.nodupKeys (ads ad).named
  exact ⟨_, Prod.ext updated rfl, rewritten⟩

theorem updateFromChain_copies (chain : Chain ads ad ancestors) (fresh : this ∉ ad :: ancestors)
    (enough : ancestors.length < fuel) :
    ∃ ads', updateFromChain copy this fuel ads ad = some (true, ads') ∧
      Rewritten ads ads' this
        (overlay (copied copy (nearest ads (ad :: ancestors))) (definitions ads this)) := by
  induction chain generalizing fuel with
  | @root ad last =>
    cases fuel with
    | zero => cases enough
    | succ fuel =>
      obtain ⟨ads', updated, rewritten⟩ := update_copies copy ads this ad
      have alone : nearest ads [ad] = definitions ads ad := by
        funext key
        rw [nearest_cons, overlay]
        exact Option.or_none
      rw [alone]
      exact ⟨ads', by simp only [updateFromChain, last, updated], rewritten⟩
  | @link ad parent rest next above ih =>
    cases fuel with
    | zero => cases enough
    | succ fuel =>
      rw [List.mem_cons, not_or] at fresh
      obtain ⟨mid, ran, first⟩ := ih fresh.2 (Nat.lt_of_succ_lt_succ enough)
      obtain ⟨ads', updated, second⟩ := update_copies copy mid this ad
      have same : definitions mid ad = definitions ads ad := by
        unfold definitions
        rw [first.others ad (Ne.symm fresh.1)]
      rw [same, first.own, ← overlay_assoc, ← copied_overlay, ← nearest_cons] at second
      exact ⟨ads', by simp only [updateFromChain, next, ran, updated], first.trans second⟩

/-- `CopyFromChain` into another ad makes an ad without a parent. -/
theorem copyFromChain_copies (chain : Chain ads ad ancestors) (fresh : this ∉ ad :: ancestors)
    (enough : ancestors.length < fuel) :
    ∃ ads', copyFromChain copy fuel ads this ad = some (true, ads') ∧
      (∀ other, other ≠ this → ads' other = ads other) ∧
      (ads' this).chainedParentAd = none ∧
      definitions ads' this = copied copy (nearest ads (ad :: ancestors)) := by
  have kept : ∀ other, other ≠ this → Function.update ads this ChainedAd.clear other = ads other :=
    fun other different => Function.update_of_ne different _ _
  have outside : ∀ other ∈ ad :: ancestors, other ≠ this := by
    rintro other member rfl
    exact fresh member
  have cleared : Chain (Function.update ads this ChainedAd.clear) ad ancestors :=
    chain.congr fun other member => by rw [kept other (outside other member)]
  obtain ⟨ads', ran, rewritten⟩ := updateFromChain_copies copy cleared fresh enough
  have different : this ≠ ad := fun same => fresh (same ▸ List.mem_cons_self)
  refine ⟨ads', ?_, fun other apart => ?_, ?_, ?_⟩
  · rw [copyFromChain, if_neg different, ran]
  · rw [rewritten.others other apart, kept other apart]
  · rw [rewritten.parent, Function.update_self]
    rfl
  · rw [rewritten.own, nearest_congr fun other member => by rw [kept other (outside other member)]]
    funext key
    simp only [overlay, definitions, Function.update_self, ChainedAd.clear, AList.lookup_empty]
    exact Option.or_none

end Copies

section Overlay
variable {A : Type} [DecidableEq A]

def NumberFactor.scale : NumberFactor → ℚ
  | .none | .b => 1
  | .k => 1024
  | .m => 1024 ^ 2
  | .g => 1024 ^ 3
  | .t => 1024 ^ 4

def evaluateLiteral (P : Type) : Literal → NumberFactor → Value P
  | .error, _ => .error
  | .undefined, _ => .undefined
  | .boolean b, _ => .boolean b
  | .integer i, .none => .integer (BitVec.ofInt 32 i)
  | .integer i, factor => .real (i * factor.scale)
  | .real r, factor => .real (r * factor.scale)
  | .relativeTime secs, _ => .relativeTime secs
  | .absoluteTime secs offset, _ => .absoluteTime secs offset
  | .string s, _ => .string s

/-- The edits delete the name, and do not insert it again. -/
def Deletes (edits : List Edit) (name : Bytes) : Prop :=
  ∃ before deleted after, edits = before ++ .delete deleted :: after ∧
    attrKey deleted = attrKey name ∧
    ∀ other tree, .insert other tree ∈ after → attrKey other ≠ attrKey name

theorem apply_deletes {inherited own : Definitions} {edits : List Edit} {name : Bytes}
    (deletes : Deletes edits name) :
    edits.foldl (Edit.apply inherited) own (attrKey name) =
      (inherited (attrKey name)).map fun _ => undefinedLiteral := by
  obtain ⟨before, deleted, after, rfl, same, kept⟩ := deletes
  rw [List.foldl_append, List.foldl_cons]
  have start : Edit.apply inherited (before.foldl (Edit.apply inherited) own) (.delete deleted)
      (attrKey name) = (inherited (attrKey name)).map fun _ => undefinedLiteral := by
    rw [Edit.apply, same, Function.update_self]
  generalize Edit.apply inherited (before.foldl (Edit.apply inherited) own) (.delete deleted) =
    current at start
  induction after generalizing current with
  | nil => exact start
  | cons edit after ih =>
    refine ih (fun other tree member => kept other tree (List.mem_cons_of_mem _ member)) _ ?_
    cases edit with
    | insert other tree =>
      have apart := kept other tree List.mem_cons_self
      rw [Edit.apply]
      split_ifs
      · exact start
      · rw [Function.update_of_ne apart.symm, start]
    | delete other =>
      rw [Edit.apply]
      by_cases again : attrKey name = attrKey other
      · rw [again, Function.update_self]
      · rw [Function.update_of_ne again, start]

/-- A chained ad is an overlay over its ancestors, whatever was inserted into it or deleted from
it, and `CopyFromChain` flattens it. -/
theorem chainedAd_overlays (copy : ExprTree → ExprTree) (ads : Ads A) (child : A)
    (ancestors : List A) (chain : Chain ads child ancestors) (edits : List Edit) (fuel : Nat)
    (enough : ancestors.length < fuel) :
    ∃ ads', runEdits fuel child ads edits = some ads' ∧
      (∀ ad, ad ≠ child → ads' ad = ads ad) ∧
      definitions ads' child =
        edits.foldl (Edit.apply (nearest ads ancestors)) (definitions ads child) ∧
      (∀ name, lookup ads' fuel child name =
        some (overlay (definitions ads' child) (nearest ads ancestors) (attrKey name))) ∧
      (∀ name, Deletes edits name → (nearest ads ancestors (attrKey name)).isSome = true →
        ∃ value factor, lookup ads' fuel child name = some (some (.literal value factor)) ∧
          evaluateLiteral A value factor = .undefined) ∧
      (∀ copyAd, copyAd ∉ child :: ancestors →
        ∃ ads'', copyFromChain copy fuel ads' copyAd child = some (true, ads'') ∧
          (∀ ad, ad ≠ copyAd → ads'' ad = ads' ad) ∧
          (ads'' copyAd).chainedParentAd = none ∧
          ∀ name, (lookup ads' fuel child name).map (Option.map copy) =
            some (definitions ads'' copyAd (attrKey name))) := by
  obtain ⟨ads', ran, rewritten⟩ := runEdits_rewritten chain enough edits
  obtain ⟨above, inherits⟩ := rewritten.chain chain
  have looked : ∀ name, lookup ads' fuel child name =
      some (overlay (definitions ads' child) (nearest ads ancestors) (attrKey name)) := by
    intro name
    rw [lookup_chain above enough, nearest_cons, inherits]
  refine ⟨ads', ran, rewritten.others, rewritten.own, looked, ?_, ?_⟩
  · intro name deletes defined
    obtain ⟨tree, found⟩ := Option.isSome_iff_exists.mp defined
    refine ⟨.undefined, .none, ?_, rfl⟩
    rw [looked, overlay, rewritten.own, apply_deletes deletes, found]
    rfl
  · intro copyAd fresh
    obtain ⟨ads'', copied, others, unchained, own⟩ :=
      copyFromChain_copies copy above fresh enough
    refine ⟨ads'', copied, others, unchained, fun name => ?_⟩
    rw [own, nearest_cons, inherits, looked]
    rfl

def chainedPair : Ads Bool
  | false => ⟨∅, AList.notMem_empty _, some true⟩
  | true => ⟨.singleton (attrKey (ascii "a")) (.literal (.integer 1) .none), by decide, none⟩

/-- `A` is deleted in the child. -/
theorem chainedAd_overlays_delete :
    ∃ ads', runEdits 2 false chainedPair [.delete (ascii "A")] = some ads' ∧
      ads' true = chainedPair true ∧
      ∃ value factor, lookup ads' 2 false (ascii "a") = some (some (.literal value factor)) ∧
        evaluateLiteral Bool value factor = .undefined := by
  obtain ⟨ads', ran, others, -, -, deleted, -⟩ := chainedAd_overlays id chainedPair false [true]
    (.link rfl (.root rfl)) [.delete (ascii "A")] 2 (by decide)
  refine ⟨ads', ran, others true (by decide), deleted (ascii "a") ?_ (by decide)⟩
  exact ⟨[], ascii "A", [], rfl, by decide, by simp⟩

end Overlay

end Condor.ClassAd
