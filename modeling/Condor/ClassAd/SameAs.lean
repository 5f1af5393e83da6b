import Condor.ClassAd.ChainedAds

/-! `Copy` and `SameAs` of every node class. A copy is made of new objects, so the tests for the
same object do not apply to it; for trees without NaN they change nothing. -/
namespace Condor.ClassAd
open Condor.Utils

/-- An expression tree in memory. `chain` are the attributes of the ancestors of an ad, the
nearest one first; a literal can also hold a real that is not a number. -/
inductive Tree where
  | literal (value : Literal) (factor : NumberFactor)
  | notANumber (factor : NumberFactor)
  | attrRef (absolute : Bool) (attributeStr : Bytes)
  | select (absolute : Bool) (expr : Tree) (attributeStr : Bytes)
  | unary (op : UnaryOp) (child₁ : Tree)
  | binary (op : BinaryOp) (child₁ child₂ : Tree)
  | ternary (child₁ child₂ child₃ : Tree)
  | fnCall (functionName : Bytes) (arguments : List Tree)
  | classAd (attrList : List (Bytes × Tree)) (chain : List (List (Bytes × Tree)))
  | exprList (exprs : List Tree)

namespace Tree

mutual

/-- `Copy` of each node class. `Literal::CopyFrom` leaves the factor of the new literal as
its constructor set it. -/
def copy : Tree → Tree
  | .literal value _ => .literal value .none
  | .notANumber _ => .notANumber .none
  | .attrRef absolute attributeStr => .attrRef absolute attributeStr
  | .select absolute expr attributeStr => .select absolute expr.copy attributeStr
  | .unary op child₁ => .unary op child₁.copy
  | .binary op child₁ child₂ => .binary op child₁.copy child₂.copy
  | .ternary child₁ child₂ child₃ => .ternary child₁.copy child₂.copy child₃.copy
  | .fnCall functionName arguments => .fnCall functionName (copyList arguments)
  | .classAd attrList chain => .classAd (copyAttrs attrList) chain
  | .exprList exprs => .exprList (copyList exprs)

def copyList : List Tree → List Tree
  | [] => []
  | tree :: rest => tree.copy :: copyList rest

def copyAttrs : List (Bytes × Tree) → List (Bytes × Tree)
  | [] => []
  | (name, tree) :: rest => (name, tree.copy) :: copyAttrs rest

end

def own (attrList : List (Bytes × Tree)) (name : Bytes) : Option Tree :=
  (attrList.find? fun attr => decide (attrKey attr.1 = attrKey name)).map Prod.snd

def lookupIn (levels : List (List (Bytes × Tree))) (name : Bytes) : Option Tree :=
  levels.findSome? fun attrList => own attrList name

mutual

def sameAs : Tree → Tree → Bool
  | .literal value factor, .literal value' factor' => factor = factor' && value = value'
  | .attrRef absolute attributeStr, .attrRef absolute' attributeStr' =>
    absolute = absolute' && attributeStr = attributeStr'
  | .select absolute expr attributeStr, .select absolute' expr' attributeStr' =>
    absolute = absolute' && attributeStr = attributeStr' && expr.sameAs expr'
  | .unary op child₁, .unary op' child₁' => op = op' && child₁.sameAs child₁'
  | .binary op child₁ child₂, .binary op' child₁' child₂' =>
    op = op' && child₁.sameAs child₁' && child₂.sameAs child₂'
  | .ternary child₁ child₂ child₃, .ternary child₁' child₂' child₃' =>
    child₁.sameAs child₁' && child₂.sameAs child₂' && child₃.sameAs child₃'
  | .fnCall functionName arguments, .fnCall functionName' arguments' =>
    functionName = functionName' && sameList arguments arguments'
  | .classAd attrList _, .classAd attrList' chain' =>
    attrList.length = attrList'.length && sameAttrs attrList (attrList' :: chain')
  | .exprList exprs, .exprList exprs' => sameList exprs exprs'
  | _, _ => false

def sameList : List Tree → List Tree → Bool
  | [], [] => true
  | tree :: rest, tree' :: rest' => tree.sameAs tree' && sameList rest rest'
  | _, _ => false

/-- The loop over the attributes of an ad, which looks them up in the other ad. -/
def sameAttrs : List (Bytes × Tree) → List (List (Bytes × Tree)) → Bool
  | [], _ => true
  | (name, tree) :: rest, levels =>
    match lookupIn levels name with
    | none => false
    | some tree' => tree.sameAs tree' && sameAttrs rest levels

end

def children : Tree → List Tree
  | .select _ expr _ => [expr]
  | .unary _ child₁ => [child₁]
  | .binary _ child₁ child₂ => [child₁, child₂]
  | .ternary child₁ child₂ child₃ => [child₁, child₂, child₃]
  | .fnCall _ arguments => arguments
  | .classAd attrList _ => attrList.map Prod.snd
  | .exprList exprs => exprs
  | _ => []

variable {t c s : Tree} {name : Bytes}

theorem sizeOf_children (child : c ∈ t.children) : sizeOf c < sizeOf t := by
  cases t with
  | literal | notANumber | attrRef => cases child
  | fnCall functionName arguments =>
    have smaller : sizeOf c < sizeOf arguments := List.sizeOf_lt_of_mem child
    simp
    omega
  | exprList exprs =>
    have smaller : sizeOf c < sizeOf exprs := List.sizeOf_lt_of_mem child
    simp
    omega
  | classAd attrList chain =>
    obtain ⟨⟨name, c⟩, member, rfl⟩ := List.mem_map.mp child
    have smaller := List.sizeOf_lt_of_mem member
    simp at smaller ⊢
    omega
  | select | unary | binary | ternary =>
    simp only [children, List.mem_cons, List.not_mem_nil, or_false] at child
    rcases child with rfl | rfl | rfl <;> simp <;> omega

theorem induct {P : Tree → Prop} (step : ∀ t, (∀ c ∈ t.children, P c) → P t) (t : Tree) : P t :=
  step t fun c _ => induct step c
termination_by sizeOf t
decreasing_by exact sizeOf_children ‹_›

/-- `s` is `t` or stands below it. -/
inductive Within (s : Tree) : Tree → Prop
  | here : Within s s
  | under {t c : Tree} (child : c ∈ t.children) (inside : Within s c) : Within s t

theorem Within.of_child (inside : Within s t) (child : c ∈ s.children) : Within c t := by
  induction inside with
  | here => exact .under child .here
  | under above _ ih => exact .under above ih

/-- The names of every ad differ, as the keys of the hash map do. -/
def WellFormed (t : Tree) : Prop :=
  ∀ attrList chain, Within (.classAd attrList chain) t →
    (attrList.map fun attr => attrKey attr.1).Nodup

/-! ## What the loops compute -/

theorem copyList_eq (trees : List Tree) : copyList trees = trees.map copy := by
  induction trees with
  | nil => rfl
  | cons tree rest ih => rw [copyList, ih, List.map_cons]

theorem copyAttrs_eq (attrList : List (Bytes × Tree)) :
    copyAttrs attrList = attrList.map fun attr => (attr.1, attr.2.copy) := by
  induction attrList with
  | nil => rfl
  | cons attr rest ih => rw [copyAttrs, ih, List.map_cons]

theorem sameList_iff {trees trees' : List Tree} :
    sameList trees trees' = true ↔
      List.Forall₂ (fun t t' => t.sameAs t' = true) trees trees' := by
  induction trees generalizing trees' with
  | nil => cases trees' <;> simp [sameList]
  | cons tree rest ih =>
    cases trees' with
    | nil => simp [sameList]
    | cons tree' rest' => simp [sameList, ih]

variable {attrList : List (Bytes × Tree)}
variable {levels : List (List (Bytes × Tree))} {t' : Tree}

theorem sameAttrs_iff :
    sameAttrs attrList levels = true ↔ ∀ attr ∈ attrList,
      ∃ tree', lookupIn levels attr.1 = some tree' ∧ attr.2.sameAs tree' = true := by
  induction attrList with
  | nil => simp [sameAttrs]
  | cons attr rest ih =>
    obtain ⟨name, tree⟩ := attr
    rw [sameAttrs, List.forall_mem_cons]
    cases lookupIn levels name with
    | none => simp
    | some tree' => simp [ih]

section Own
variable {attrList : List (Bytes × Tree)} {name : Bytes} {tree : Tree}

theorem exists_of_own (found : own attrList name = some tree) :
    ∃ spelling, (spelling, tree) ∈ attrList ∧ attrKey spelling = attrKey name := by
  obtain ⟨⟨spelling, tree'⟩, here, same⟩ := Option.map_eq_some_iff.mp found
  cases same
  exact ⟨spelling, List.mem_of_find?_eq_some here, by simpa using List.find?_some here⟩

theorem own_of_mem (distinct : (attrList.map fun attr => attrKey attr.1).Nodup)
    {spelling : Bytes} (member : (spelling, tree) ∈ attrList)
    (same : attrKey spelling = attrKey name) : own attrList name = some tree := by
  induction attrList with
  | nil => cases member
  | cons attr rest ih =>
    rw [List.map_cons, List.nodup_cons] at distinct
    rw [own, List.find?_cons]
    rcases List.mem_cons.mp member with rfl | later
    · simp [same]
    · have other : attrKey attr.1 ≠ attrKey name := by
        intro clash
        refine distinct.1 (List.mem_map.mpr ⟨_, later, ?_⟩)
        exact same.trans clash.symm
      simp only [other, decide_false]
      exact ih distinct.2 later

theorem own_congr {other : Bytes} (same : attrKey other = attrKey name) :
    own attrList other = own attrList name := by
  simp only [own, same]

end Own

/-! ## The two shapes of the comparison -/

inductive Label where
  | literal (value : Literal) (factor : NumberFactor)
  | notANumber
  | attrRef (absolute : Bool) (attributeStr : Bytes)
  | select (absolute : Bool) (attributeStr : Bytes)
  | unary (op : UnaryOp)
  | binary (op : BinaryOp)
  | ternary
  | fnCall (functionName : Bytes)
  | classAd
  | exprList

def label : Tree → Label
  | .literal value factor => .literal value factor
  | .notANumber _ => .notANumber
  | .attrRef absolute attributeStr => .attrRef absolute attributeStr
  | .select absolute _ attributeStr => .select absolute attributeStr
  | .unary op _ => .unary op
  | .binary op _ _ => .binary op
  | .ternary _ _ _ => .ternary
  | .fnCall functionName _ => .fnCall functionName
  | .classAd _ _ => .classAd
  | .exprList _ => .exprList

theorem sameAs_iff_of_label (plain : t.label ≠ .classAd) :
    t.sameAs t' = true ↔ t.label ≠ .notANumber ∧ t.label = t'.label ∧
      List.Forall₂ (fun c c' => c.sameAs c' = true) t.children t'.children := by
  cases t with
  | classAd attrList chain => exact absurd rfl plain
  | literal => cases t' <;> simp [sameAs, label, children, and_comm]
  | notANumber => cases t' <;> simp [sameAs, label]
  | attrRef => cases t' <;> simp [sameAs, label, children]
  | select => cases t' <;> simp [sameAs, label, children]
  | unary => cases t' <;> simp [sameAs, label, children]
  | binary => cases t' <;> simp [sameAs, label, children, and_assoc]
  | ternary => cases t' <;> simp [sameAs, label, children, and_assoc]
  | fnCall => cases t' <;> simp [sameAs, label, children, sameList_iff]
  | exprList => cases t' <;> simp [sameAs, label, children, sameList_iff]

theorem sameAs_classAd_iff {attrList attrList' : List (Bytes × Tree)}
    {chain chain' : List (List (Bytes × Tree))} :
    (classAd attrList chain).sameAs (.classAd attrList' chain') = true ↔
      attrList.length = attrList'.length ∧ ∀ attr ∈ attrList,
        ∃ tree', lookupIn (attrList' :: chain') attr.1 = some tree' ∧
          attr.2.sameAs tree' = true := by
  simp [sameAs, sameAttrs_iff]

variable {chain : List (List (Bytes × Tree))}

theorem eq_classAd_of_sameAs (same : (classAd attrList chain).sameAs t' = true) :
    ∃ attrList' chain', t' = .classAd attrList' chain' := by
  cases t' with
  | classAd attrList' chain' => exact ⟨attrList', chain', rfl⟩
  | _ => simp [sameAs] at same

/-! ## Copies -/

/-- A copy is the same as its original, and whatever evaluates a tree in a state makes the same
of both. -/
def CopyPreserves (t : Tree) : Prop :=
  t.copy.sameAs t = true ∧
    ∀ (State Result : Type) (evaluate : State → Tree → Result) (state : State),
      evaluate state t.copy = evaluate state t

/-- No literal has a factor or is a NaN. -/
def Unscaled (t : Tree) : Prop :=
  (∀ value factor, Within (.literal value factor) t → factor = .none) ∧
    ∀ factor, ¬Within (.notANumber factor) t

theorem lookupIn_of_own {tree : Tree} (found : own attrList name = some tree) :
    lookupIn (attrList :: chain) name = some tree := by
  rw [lookupIn, List.findSome?_cons, found]

theorem children_copy (t : Tree) : t.copy.children = t.children.map copy := by
  cases t <;> simp [copy, children, copyList_eq, copyAttrs_eq]

theorem WellFormed.child (wellFormed : t.WellFormed) (child : c ∈ t.children) :
    c.WellFormed := fun attrList chain inside => wellFormed attrList chain (.under child inside)

theorem Unscaled.child (unscaled : t.Unscaled) (child : c ∈ t.children) : c.Unscaled :=
  ⟨fun value factor inside => unscaled.1 value factor (.under child inside),
    fun factor inside => unscaled.2 factor (.under child inside)⟩

theorem copy_eq_self (t : Tree) (unscaled : t.Unscaled) : t.copy = t := by
  induction t using induct with
  | step t ih =>
    have below : ∀ c ∈ t.children, c.copy = c := fun c child => ih c child (unscaled.child child)
    cases t with
    | literal value factor => rw [copy, unscaled.1 value factor .here]
    | notANumber factor => exact absurd .here (unscaled.2 factor)
    | attrRef => rfl
    | classAd attrList chain =>
      rw [copy, copyAttrs_eq, List.map_congr_left (g := id), List.map_id]
      intro attr member
      exact Prod.ext rfl (below attr.2 (List.mem_map_of_mem member))
    | fnCall functionName arguments =>
      have same : ∀ c ∈ arguments, c.copy = id c := below
      rw [copy, copyList_eq, List.map_congr_left same, List.map_id]
    | exprList exprs =>
      have same : ∀ c ∈ exprs, c.copy = id c := below
      rw [copy, copyList_eq, List.map_congr_left same, List.map_id]
    | select | unary | binary | ternary => simp_all [copy, children]

/-- A copy is compared with its original part by part. -/
theorem sameAs_copy_child (wellFormed : t.WellFormed) (same : t.copy.sameAs t = true)
    (child : c ∈ t.children) : c.copy.sameAs c = true := by
  by_cases ad : t.copy.label = .classAd
  · cases t with
    | classAd attrList chain =>
      obtain ⟨⟨name, tree⟩, member, rfl⟩ := List.mem_map.mp child
      rw [copy, sameAs_classAd_iff] at same
      have copied : (name, tree.copy) ∈ copyAttrs attrList := by
        rw [copyAttrs_eq]
        exact List.mem_map_of_mem (f := fun attr : Bytes × Tree => (attr.1, attr.2.copy)) member
      obtain ⟨tree', found, same⟩ := same.2 _ copied
      rw [lookupIn_of_own (own_of_mem (wellFormed attrList chain .here) member rfl)] at found
      cases found
      exact same
    | _ => cases ad
  · have parts := ((sameAs_iff_of_label ad).mp same).2.2
    rw [children_copy, List.forall₂_map_left_iff, List.forall₂_same] at parts
    exact parts c child

theorem sameAs_copy_within (inside : Within s t) (wellFormed : t.WellFormed)
    (same : t.copy.sameAs t = true) : s.copy.sameAs s = true := by
  induction inside with
  | here => exact same
  | under child _ ih => exact ih (wellFormed.child child) (sameAs_copy_child wellFormed same child)

section Closed
variable {S : Tree → Prop}

/-- Trees that the comparison is meant for, with all that stands below them. -/
structure Comparable (S : Tree → Prop) : Prop where
  closed : ∀ t c, S t → c ∈ t.children → S c
  distinct : ∀ attrList chain, S (.classAd attrList chain) →
    (attrList.map fun attr => attrKey attr.1).Nodup
  numbers : ∀ t, S t → t.label ≠ .notANumber

theorem eq_classAd_of_label (ad : t.label = .classAd) :
    ∃ attrList chain, t = .classAd attrList chain := by
  cases t with
  | classAd attrList chain => exact ⟨attrList, chain, rfl⟩
  | _ => cases ad

theorem sameAs_refl (h : Comparable S) (t : Tree) (inside : S t) : t.sameAs t = true := by
  induction t using induct with
  | step t ih =>
    have below : ∀ c ∈ t.children, c.sameAs c = true := fun c child =>
      ih c child (h.closed t c inside child)
    by_cases ad : t.label = .classAd
    · obtain ⟨attrList, chain, rfl⟩ := eq_classAd_of_label ad
      refine sameAs_classAd_iff.mpr ⟨rfl, fun attr member => ⟨attr.2, ?_, ?_⟩⟩
      · exact lookupIn_of_own (own_of_mem (h.distinct attrList chain inside) member rfl)
      · exact below attr.2 (List.mem_map_of_mem member)
    · refine (sameAs_iff_of_label ad).mpr ⟨h.numbers t inside, rfl, ?_⟩
      exact List.forall₂_same.mpr below

end Closed

def sumTree : Tree :=
  .binary .addition (.literal (.integer 1) .none) (.attrRef false (ascii "x"))

theorem within_sumTree (inside : Within s sumTree) :
    s = sumTree ∨ s = .literal (.integer 1) .none ∨ s = .attrRef false (ascii "x") := by
  rcases inside with _ | ⟨child, inside⟩
  · exact .inl rfl
  · simp only [sumTree, children, List.mem_cons, List.not_mem_nil, or_false] at child
    rcases child with rfl | rfl
    · rcases inside with _ | ⟨child, -⟩
      · exact .inr (.inl rfl)
      · cases child
    · rcases inside with _ | ⟨child, -⟩
      · exact .inr (.inr rfl)
      · cases child

section Equivalence
variable {S : Tree → Prop} {attrList attrList' : List (Bytes × Tree)}
  {chain chain' : List (List (Bytes × Tree))}

/-- No ad inherits a name that another one defines itself, and that it does not define. -/
def Separate (S : Tree → Prop) : Prop :=
  ∀ attrList chain attrList' chain', S (.classAd attrList chain) → S (.classAd attrList' chain') →
    ∀ name, (own attrList name).isSome = true →
      (lookupIn (attrList' :: chain') name).isSome = true → (own attrList' name).isSome = true

theorem lookupIn_congr {other : Bytes} (same : attrKey other = attrKey name) :
    lookupIn levels other = lookupIn levels name := by
  simp only [lookupIn, own_congr same]

theorem Separate.own_of_lookup (separate : Separate S) (comparable : Comparable S)
    (inside : S (.classAd attrList chain)) (inside' : S (.classAd attrList' chain'))
    {attr : Bytes × Tree} (member : attr ∈ attrList) {tree' : Tree}
    (found : lookupIn (attrList' :: chain') attr.1 = some tree') :
    own attrList' attr.1 = some tree' := by
  have mine : own attrList attr.1 = some attr.2 :=
    own_of_mem (comparable.distinct attrList chain inside) member rfl
  have known := separate attrList chain attrList' chain' inside inside' attr.1
    (Option.isSome_of_eq_some mine) (Option.isSome_of_eq_some found)
  obtain ⟨tree, here⟩ := Option.isSome_iff_exists.mp known
  rw [lookupIn_of_own here] at found
  exact here.trans found

theorem own_of_same_length (distinct : (attrList.map fun attr => attrKey attr.1).Nodup)
    (sizes : attrList.length = attrList'.length)
    (found : ∀ attr ∈ attrList, (own attrList' attr.1).isSome = true) {attr' : Bytes × Tree}
    (member : attr' ∈ attrList') :
    ∃ attr ∈ attrList, attrKey attr.1 = attrKey attr'.1 := by
  have subset : (attrList.map fun attr => attrKey attr.1) ⊆
      attrList'.map fun attr => attrKey attr.1 := by
    intro key here
    obtain ⟨attr, mine, rfl⟩ := List.mem_map.mp here
    obtain ⟨tree, other⟩ := Option.isSome_iff_exists.mp (found attr mine)
    obtain ⟨spelling, there, same⟩ := exists_of_own other
    exact List.mem_map.mpr ⟨_, there, same⟩
  have same := (List.subperm_of_subset distinct subset).perm_of_length_le (by simp [sizes])
  have key := same.mem_iff.mpr (List.mem_map_of_mem (f := fun attr => attrKey attr.1) member)
  obtain ⟨attr, here, equal⟩ := List.mem_map.mp key
  exact ⟨attr, here, equal⟩

variable {R : Tree → Tree → Prop} {ts ts' : List Tree}

theorem forall₂_symm (parts : List.Forall₂ R ts ts') (swap : ∀ t ∈ ts, ∀ t' ∈ ts', R t t' → R t' t)
    : List.Forall₂ R ts' ts := by
  induction parts with
  | nil => exact .nil
  | cons first _ ih =>
    refine .cons (swap _ List.mem_cons_self _ List.mem_cons_self first) (ih ?_)
    intro t here t' here'
    exact swap t (List.mem_cons_of_mem _ here) t' (List.mem_cons_of_mem _ here')

theorem forall₂_trans {ts'' : List Tree} (parts : List.Forall₂ R ts ts')
    (parts' : List.Forall₂ R ts' ts'')
    (link : ∀ t ∈ ts, ∀ t' ∈ ts', ∀ t'' ∈ ts'', R t t' → R t' t'' → R t t'') :
    List.Forall₂ R ts ts'' := by
  induction parts generalizing ts'' with
  | nil =>
    cases parts'
    exact .nil
  | cons first _ ih =>
    cases parts' with
    | cons second rest' =>
      refine .cons (link _ List.mem_cons_self _ List.mem_cons_self _ List.mem_cons_self first
        second) (ih rest' ?_)
      intro t here t' here' t'' here''
      exact link t (List.mem_cons_of_mem _ here) t' (List.mem_cons_of_mem _ here') t''
        (List.mem_cons_of_mem _ here'')

theorem sameAs_symm (comparable : Comparable S) (separate : Separate S) (t : Tree) (inside : S t)
    (t' : Tree) (inside' : S t') (same : t.sameAs t' = true) : t'.sameAs t = true := by
  induction t using induct generalizing t' with
  | step t ih =>
    by_cases ad : t.label = .classAd
    · obtain ⟨attrList, chain, rfl⟩ := eq_classAd_of_label ad
      obtain ⟨attrList', chain', rfl⟩ := eq_classAd_of_sameAs same
      obtain ⟨sizes, found⟩ := sameAs_classAd_iff.mp same
      have looked : ∀ attr ∈ attrList,
          ∃ tree', own attrList' attr.1 = some tree' ∧ attr.2.sameAs tree' = true := by
        intro attr member
        obtain ⟨tree', here, equal⟩ := found attr member
        exact ⟨tree', separate.own_of_lookup comparable inside inside' member here, equal⟩
      refine sameAs_classAd_iff.mpr ⟨sizes.symm, fun attr' member' => ?_⟩
      have distinct := comparable.distinct attrList chain inside
      have known : ∀ attr ∈ attrList, (own attrList' attr.1).isSome = true := by
        intro attr member
        obtain ⟨tree', here, -⟩ := looked attr member
        exact Option.isSome_of_eq_some here
      obtain ⟨attr, member, key⟩ := own_of_same_length distinct sizes known member'
      obtain ⟨tree', here, equal⟩ := looked attr member
      have mine := own_of_mem (comparable.distinct attrList' chain' inside') member' key.symm
      cases here.symm.trans mine
      refine ⟨attr.2, lookupIn_of_own (own_of_mem distinct member key), ?_⟩
      have child : attr.2 ∈ (classAd attrList chain).children := List.mem_map_of_mem member
      have child' : attr'.2 ∈ (classAd attrList' chain').children := List.mem_map_of_mem member'
      exact ih attr.2 child (comparable.closed _ _ inside child) attr'.2
        (comparable.closed _ _ inside' child') equal
    · obtain ⟨number, labels, parts⟩ := (sameAs_iff_of_label ad).mp same
      rw [labels] at ad number
      refine (sameAs_iff_of_label ad).mpr ⟨number, labels.symm, forall₂_symm parts ?_⟩
      intro c child c' child' equal
      exact ih c child (comparable.closed _ _ inside child) c'
        (comparable.closed _ _ inside' child') equal

theorem sameAs_trans (comparable : Comparable S) (separate : Separate S) (t : Tree) (inside : S t)
    (t' : Tree) (inside' : S t') (t'' : Tree) (inside'' : S t'') (same : t.sameAs t' = true)
    (same' : t'.sameAs t'' = true) : t.sameAs t'' = true := by
  induction t using induct generalizing t' t'' with
  | step t ih =>
    by_cases ad : t.label = .classAd
    · obtain ⟨attrList, chain, rfl⟩ := eq_classAd_of_label ad
      obtain ⟨attrList', chain', rfl⟩ := eq_classAd_of_sameAs same
      obtain ⟨attrList'', chain'', rfl⟩ := eq_classAd_of_sameAs same'
      obtain ⟨sizes, found⟩ := sameAs_classAd_iff.mp same
      obtain ⟨sizes', found'⟩ := sameAs_classAd_iff.mp same'
      refine sameAs_classAd_iff.mpr ⟨sizes.trans sizes', fun attr member => ?_⟩
      obtain ⟨tree', here, equal⟩ := found attr member
      obtain ⟨spelling, member', key⟩ :=
        exists_of_own (separate.own_of_lookup comparable inside inside' member here)
      obtain ⟨tree'', here', equal'⟩ := found' _ member'
      obtain ⟨spelling', member'', -⟩ :=
        exists_of_own (separate.own_of_lookup comparable inside' inside'' member' here')
      refine ⟨tree'', (lookupIn_congr key).symm.trans here', ?_⟩
      have child : attr.2 ∈ (classAd attrList chain).children := List.mem_map_of_mem member
      have child' : tree' ∈ (classAd attrList' chain').children :=
        List.mem_map.mpr ⟨_, member', rfl⟩
      have child'' : tree'' ∈ (classAd attrList'' chain'').children :=
        List.mem_map.mpr ⟨_, member'', rfl⟩
      exact ih attr.2 child (comparable.closed _ _ inside child) tree'
        (comparable.closed _ _ inside' child') tree'' (comparable.closed _ _ inside'' child'')
        equal equal'
    · obtain ⟨number, labels, parts⟩ := (sameAs_iff_of_label ad).mp same
      have ad' : t'.label ≠ .classAd := labels ▸ ad
      obtain ⟨-, labels', parts'⟩ := (sameAs_iff_of_label ad').mp same'
      refine (sameAs_iff_of_label ad).mpr ⟨number, labels.trans labels',
        forall₂_trans parts parts' ?_⟩
      intro c child c' child' c'' child'' equal equal'
      exact ih c child (comparable.closed _ _ inside child) c'
        (comparable.closed _ _ inside' child') c'' (comparable.closed _ _ inside'' child'')
        equal equal'

end Equivalence

theorem separate_of_unchained {S : Tree → Prop}
    (unchained : ∀ attrList chain, S (.classAd attrList chain) → chain = []) : Separate S := by
  intro attrList chain attrList' chain' _ inside' name _ found
  rw [unchained attrList' chain' inside', lookupIn] at found
  cases mine : own attrList' name with
  | none => simp [mine] at found
  | some tree => rfl

def oneAttr (name : Bytes) : Tree := .classAd [(name, .literal (.integer 1) .none)] []

theorem within_oneAttr (inside : Within s (oneAttr name)) :
    s = oneAttr name ∨ s = .literal (.integer 1) .none := by
  rcases inside with _ | ⟨child, inside⟩
  · exact .inl rfl
  · obtain rfl : _ = Tree.literal (.integer 1) .none := by simpa [oneAttr, children] using child
    rcases inside with _ | ⟨child, -⟩
    · exact .inr rfl
    · cases child

theorem wellFormed_oneAttr (name : Bytes) : (oneAttr name).WellFormed := by
  intro attrList chain inside
  rcases within_oneAttr inside with root | literal
  · cases root
    simp
  · cases literal

theorem numbers_oneAttr (name : Bytes) (factor : NumberFactor) :
    ¬Within (.notANumber factor) (oneAttr name) := by
  intro inside
  rcases within_oneAttr inside with root | literal
  · cases root
  · cases literal

theorem unchained_oneAttr (inside : Within (.classAd attrList chain) (oneAttr name)) :
    chain = [] := by
  rcases within_oneAttr inside with root | literal
  · cases root
    rfl
  · cases literal

def chainedTree : Tree :=
  .classAd [(ascii "y", .literal (.integer 2) .none)] [[(ascii "x", .literal (.integer 1) .none)]]

end Tree
end Condor.ClassAd
