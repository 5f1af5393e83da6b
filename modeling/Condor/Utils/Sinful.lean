import Mathlib.Algebra.Order.BigOperators.Group.List
import Mathlib.Algebra.Order.Ring.Nat
import Condor.Lib.Words
import Condor.Utils.Stdio

/-! `condor_sinful.cpp` and `split_sin`. An address is `<host:port?params>` with percent-encoded
keys and values. `char` is signed: for a byte above 127 the `%02x` of `sprintf` writes eight digits
into a buffer for two. The model takes the text that is written. -/
namespace Condor.Utils

open Condor.Lib

abbrev byte (c : Char) : UInt8 := c.toUInt8

/-- `c_str()`: the bytes before the first NUL. -/
def cStr (s : Bytes) : Bytes := s.takeWhile (· ≠ 0)

/-! ## Percent encoding -/

def isAlnum (c : UInt8) : Bool :=
  isDigit c || byte 'a' ≤ c && c ≤ byte 'z' || byte 'A' ≤ c && c ≤ byte 'Z'

def needsUrlEncodeEscape (ch : UInt8) : Bool :=
  !(isAlnum ch || ch == byte '.' || ch == byte '_' || ch == byte '-' || ch == byte ':' ||
    ch == byte '#')

def hexDigit (n : Nat) : UInt8 :=
  if n < 10 then byte '0' + n.toUInt8 else byte 'a' + (n - 10).toUInt8

/-- `sprintf(code, "%%%02x", ch)`. -/
def percentCode (ch : UInt8) : Bytes :=
  byte '%' :: (if 128 ≤ ch.toNat then List.replicate 6 (byte 'f') else []) ++
    [hexDigit (ch.toNat / 16), hexDigit (ch.toNat % 16)]

def urlEncode (str : Bytes) : Bytes :=
  str.flatMap fun ch => if needsUrlEncodeEscape ch then percentCode ch else [ch]

def hexValue (c : UInt8) : Option Nat :=
  if byte '0' ≤ c ∧ c ≤ byte '9' then some (c - byte '0').toNat
  else if byte 'a' ≤ c ∧ c ≤ byte 'f' then some ((c - byte 'a').toNat + 10)
  else if byte 'A' ≤ c ∧ c ≤ byte 'F' then some ((c - byte 'A').toNat + 10)
  else none

/-- `urlDecode` of the first `max` bytes. What follows them is a separator or the end, which
is no digit: a code that is cut off fails here as there. -/
def urlDecode : Bytes → Option Bytes
  | [] => some []
  | c :: high :: low :: str =>
    if c = byte '%' then
      (hexValue high).bind fun h => (hexValue low).bind fun l =>
        (urlDecode str).map ((16 * h + l).toUInt8 :: ·)
    else (urlDecode (high :: low :: str)).map (c :: ·)
  | c :: str => if c = byte '%' then none else (urlDecode str).map (c :: ·)

/-! ## Parameters -/

/-- `std::map<std::string,std::string>`, in the order of its keys. -/
abbrev Params := List (Bytes × Bytes)

/-- `params[key] = value`, and `insert` with the assignment to a key that is there. -/
def setKey (key value : Bytes) : Params → Params
  | [] => [(key, value)]
  | (k, v) :: params =>
    if key < k then (key, value) :: (k, v) :: params
    else if key = k then (k, value) :: params
    else (k, v) :: setKey key value params

/-- The pairs of a parameter string, separated by `&` or `;`; `pair` is being read. -/
def splitPairs (pair : Bytes) : Bytes → List Bytes
  | [] => if pair = [] then [] else [pair]
  | c :: str =>
    if c = byte '&' ∨ c = byte ';' then
      (if pair = [] then [] else [pair]) ++ splitPairs [] str
    else splitPairs (pair ++ [c]) str

def parsePair (params : Params) (pair : Bytes) : Option Params :=
  let key := pair.takeWhile (· ≠ byte '=')
  if key = [] then none
  else (urlDecode key).bind fun key' =>
    (urlDecode ((pair.dropWhile (· ≠ byte '=')).drop 1)).map fun value =>
      setKey key' value params

def parsePairs (params : Params) : List Bytes → Params × Bool
  | [] => (params, true)
  | pair :: pairs =>
    match parsePair params pair with
    | some params => parsePairs params pairs
    | none => (params, false)

def parseUrlEncodedParams (str : Bytes) : Params × Bool := parsePairs [] (splitPairs [] str)

def pairText (param : Bytes × Bytes) : Bytes :=
  urlEncode (cStr param.1) ++
    if param.2 = [] then [] else byte '=' :: urlEncode (cStr param.2)

def urlEncodeParams (params : Params) : Bytes :=
  params.foldl (fun result param => addWord (byte '&') result (pairText param)) []

/-! ## Addresses -/

/-- The port or the parameters of `split_sin`: present if its mark stands there. -/
def optionalPart (mark : UInt8) (part : UInt8 → Bool) : Bytes → Option Bytes × Bytes
  | [] => (none, [])
  | c :: addr =>
    if c = mark then (some (addr.takeWhile part), addr.dropWhile part) else (none, c :: addr)

def isHostChar (c : UInt8) : Bool := !(c == byte ':' || c == byte '?' || c == byte '>')

def splitSin (addr : Bytes) : Option (Bytes × Option Bytes × Option Bytes) :=
  if addr.head? = some (byte '<') then
    let (port, rest) := optionalPart (byte ':') isDigit (addr.tail.dropWhile isHostChar)
    let (params, rest) := optionalPart (byte '?') (· ≠ byte '>') rest
    if rest = [byte '>'] then some (addr.tail.takeWhile isHostChar, port, params) else none
  else none

structure Sinful where
  sinful : Bytes
  host : Bytes
  port : Bytes
  params : Params
  valid : Bool
  deriving DecidableEq, Repr

namespace Sinful

def text (host port : Bytes) (params : Params) : Bytes :=
  byte '<' :: host ++ (if port = [] then [] else byte ':' :: port) ++
    (if params = [] then [] else byte '?' :: urlEncodeParams params) ++ [byte '>']

def regenerateSinful (s : Sinful) : Sinful := { s with sinful := text s.host s.port s.params }

def ofString : Option Bytes → Sinful
  | none => ⟨[], [], [], [], true⟩
  | some sinful =>
    let sinful := if sinful.head? = some (byte '<') then sinful
      else byte '<' :: sinful ++ [byte '>']
    match splitSin sinful with
    | none => ⟨sinful, [], [], [], false⟩
    | some (host, port, none) => ⟨sinful, host, port.getD [], [], true⟩
    | some (host, port, some params) =>
      ⟨sinful, host, port.getD [], (parseUrlEncodedParams params).1,
        (parseUrlEncodedParams params).2⟩

def getSinful (s : Sinful) : Option Bytes := if s.sinful = [] then none else some s.sinful

def setHost (s : Sinful) (host : Bytes) : Sinful := { s with host }.regenerateSinful

def setPort (s : Sinful) (port : Bytes) : Sinful := { s with port }.regenerateSinful

/-- `setParam`: no value erases the key. -/
def setParam (s : Sinful) (key : Bytes) (value : Option Bytes) : Sinful :=
  match value with
  | none => { s with params := s.params.filter (·.1 ≠ key) }.regenerateSinful
  | some value => { s with params := setKey key value s.params }.regenerateSinful

def clearParams (s : Sinful) : Sinful := { s with params := [] }.regenerateSinful

inductive Built : Sinful → Prop
  | ofString (sinful : Option Bytes) : Built (ofString sinful)
  | setHost {s : Sinful} (host : Bytes) : Built s → Built (s.setHost host)
  | setPort {s : Sinful} (port : Bytes) : Built s → Built (s.setPort port)
  | setParam {s : Sinful} (key : Bytes) (value : Option Bytes) :
      Built s → Built (s.setParam key value)
  | clearParams {s : Sinful} : Built s → Built s.clearParams

end Sinful

/-! ## What is decoded of an encoded text -/

def comesBack (b : UInt8) : Bytes :=
  if 128 ≤ b.toNat then
    0xFF :: List.replicate 4 (byte 'f') ++ [hexDigit (b.toNat / 16), hexDigit (b.toNat % 16)]
  else [b]

variable {c : UInt8} {s port : Bytes} {params : Params}

theorem urlDecode_plain (plain : c ≠ byte '%') (str : Bytes) :
    urlDecode (c :: str) = (urlDecode str).map (c :: ·) := by
  match str with
  | [] => simp [urlDecode, plain]
  | [d] => simp [urlDecode, plain]
  | d :: e :: str => rw [urlDecode, if_neg plain]

theorem hexDigit_spec : ∀ n : Fin 16, hexValue (hexDigit n) = some n.val ∧
    hexDigit n ≠ byte '%' ∧ hexDigit n ≠ byte '&' ∧ hexDigit n ≠ byte ';' ∧
      hexDigit n ≠ byte '=' ∧ hexDigit n ≠ byte '>' := by
  decide

theorem urlDecode_code {n m : Nat} (high : n < 16) (low : m < 16) (str : Bytes) :
    urlDecode (byte '%' :: hexDigit n :: hexDigit m :: str) =
      (urlDecode str).map ((16 * n + m).toUInt8 :: ·) := by
  rw [urlDecode, if_pos rfl, (hexDigit_spec ⟨n, high⟩).1, (hexDigit_spec ⟨m, low⟩).1]
  rfl

theorem urlDecode_percentCode (b : UInt8) (str : Bytes) :
    urlDecode (percentCode b ++ str) = (urlDecode str).map (comesBack b ++ ·) := by
  have bound : b.toNat < 256 := b.toNat_lt
  have high : b.toNat / 16 < 16 := by omega
  have low : b.toNat % 16 < 16 := by omega
  rw [percentCode, comesBack]
  split
  · have ff := urlDecode_code (n := 15) (m := 15) (by decide) (by decide)
      (List.replicate 4 (byte 'f') ++ [hexDigit (b.toNat / 16), hexDigit (b.toNat % 16)] ++ str)
    have digits := (hexDigit_spec ⟨_, high⟩).2.1
    have digits' := (hexDigit_spec ⟨_, low⟩).2.1
    refine ff.trans ?_
    simp only [List.replicate, List.cons_append, List.nil_append]
    rw [urlDecode_plain (by decide), urlDecode_plain (by decide), urlDecode_plain (by decide),
      urlDecode_plain (by decide), urlDecode_plain digits, urlDecode_plain digits']
    simp only [Option.map_map]
    rfl
  · have same : (16 * (b.toNat / 16) + b.toNat % 16).toUInt8 = b := by
      rw [Nat.div_add_mod]
      exact UInt8.ofNat_toNat
    refine (urlDecode_code high low str).trans ?_
    rw [same]
    rfl

/-- A byte that is not escaped is no separator. -/
theorem plain_spec : ∀ n : Fin 256, needsUrlEncodeEscape n.val.toUInt8 = false →
    n.val < 128 ∧ n.val.toUInt8 ≠ byte '%' ∧ n.val.toUInt8 ≠ byte '&' ∧
      n.val.toUInt8 ≠ byte ';' ∧ n.val.toUInt8 ≠ byte '=' ∧ n.val.toUInt8 ≠ byte '>' := by
  decide +kernel

theorem plain_of_unescaped {b : UInt8} (plain : needsUrlEncodeEscape b = false) :
    b.toNat < 128 ∧ b ≠ byte '%' ∧ b ≠ byte '&' ∧ b ≠ byte ';' ∧ b ≠ byte '=' ∧ b ≠ byte '>' := by
  have spec := plain_spec ⟨b.toNat, b.toNat_lt⟩
  have same : b.toNat.toUInt8 = b := UInt8.ofNat_toNat
  simp only [same] at spec
  exact spec plain

theorem urlDecode_urlEncode (s : Bytes) : urlDecode (urlEncode s) = some (s.flatMap comesBack) := by
  induction s with
  | nil => rfl
  | cons b s ih =>
    rw [urlEncode, List.flatMap_cons, ← urlEncode, List.flatMap_cons]
    split
    · rw [urlDecode_percentCode, ih]
      rfl
    · next plain =>
        obtain ⟨small, other, -⟩ := plain_of_unescaped (Bool.eq_false_iff.mpr plain)
        rw [List.singleton_append, urlDecode_plain other, ih, comesBack,
          if_neg (Nat.not_le.mpr small)]
        rfl

theorem mem_urlEncode (member : c ∈ urlEncode s) :
    c ≠ byte '&' ∧ c ≠ byte ';' ∧ c ≠ byte '=' ∧ c ≠ byte '>' := by
  rw [urlEncode, List.mem_flatMap] at member
  obtain ⟨b, -, written⟩ := member
  split at written
  · have bound : b.toNat < 256 := b.toNat_lt
    have high := (hexDigit_spec ⟨b.toNat / 16, by omega⟩).2.2
    have low := (hexDigit_spec ⟨b.toNat % 16, by omega⟩).2.2
    rw [percentCode, List.cons_append, List.mem_cons, List.mem_append, List.mem_pair] at written
    rcases written with rfl | sign | rfl | rfl
    · decide
    · split at sign
      · obtain rfl := (List.mem_replicate.mp sign).2
        decide
      · cases sign
    · exact high
    · exact low
  · next plain =>
      obtain rfl := List.mem_singleton.mp written
      exact (plain_of_unescaped (Bool.eq_false_iff.mpr plain)).2.2

theorem urlEncode_ne_nil (filled : s ≠ []) : urlEncode s ≠ [] := by
  cases s with
  | nil => exact absurd rfl filled
  | cons b s =>
    rw [urlEncode, List.flatMap_cons]
    split <;> simp [percentCode]

theorem cStr_eq (nulFree : 0 ∉ s) : cStr s = s := by
  refine List.takeWhile_eq_self_iff.mpr fun c member => decide_eq_true ?_
  rintro rfl
  exact nulFree member

def back (s : Bytes) : Bytes := s.flatMap comesBack

theorem length_comesBack (b : UInt8) : (comesBack b).length = if 128 ≤ b.toNat then 7 else 1 := by
  rw [comesBack]
  split <;> rfl

theorem length_le_back (s : Bytes) : s.length ≤ (back s).length := by
  induction s with
  | nil => exact Nat.le_refl 0
  | cons b s ih => grind [back, length_comesBack]

/-- A text comes back as it was exactly when it has no byte above 127. -/
theorem length_back_iff : (back s).length = s.length ↔ ∀ c ∈ s, c.toNat < 128 := by
  induction s with
  | nil => simp [back]
  | cons b s ih =>
    have rest := length_le_back s
    have first := length_comesBack b
    rw [back, List.flatMap_cons, ← back, List.length_append, List.length_cons,
      List.forall_mem_cons, ← ih, first]
    split <;> omega

theorem back_eq (low : ∀ c ∈ s, c.toNat < 128) : back s = s := by
  induction s with
  | nil => rfl
  | cons b s ih =>
    obtain ⟨small, rest⟩ := List.forall_mem_cons.mp low
    rw [back, List.flatMap_cons, ← back, ih rest, comesBack, if_neg (Nat.not_le.mpr small)]
    rfl

/-! ## The parameter string -/

variable {word key value k host : Bytes} {param : Bytes × Bytes} {before : Params} {d : UInt8}

theorem splitPairs_append (plain : ∀ c ∈ word, c ≠ byte '&' ∧ c ≠ byte ';') (pair rest : Bytes) :
    splitPairs pair (word ++ rest) = splitPairs (pair ++ word) rest := by
  induction word generalizing pair with
  | nil => simp
  | cons c word ih =>
    obtain ⟨other, plain⟩ := List.forall_mem_cons.mp plain
    rw [List.cons_append, splitPairs, if_neg (by simp [other]), ih plain]
    simp

theorem reads_pair (plain : ∀ c ∈ word, c ≠ byte '&' ∧ c ≠ byte ';') (filled : word ≠ []) :
    Reads (fun list text => list ++ splitPairs [] text) id (byte '&') word [word] := by
  have read := splitPairs_append plain []
  refine ⟨fun empty => absurd empty filled, fun list => ?_, fun list rest => ?_⟩
  · have whole := read []
    rw [List.append_nil] at whole
    simp [whole, splitPairs, filled]
  · simp [read, splitPairs, filled]

def Carried (params : Params) : Prop := ∀ param ∈ params, param.1 ≠ [] ∧ 0 ∉ param.1 ∧ 0 ∉ param.2

theorem mem_pairText (member : c ∈ pairText param) :
    c ≠ byte '&' ∧ c ≠ byte ';' ∧ c ≠ byte '>' := by
  rw [pairText, List.mem_append] at member
  rcases member with key | value
  · obtain ⟨amp, semi, -, angle⟩ := mem_urlEncode key
    exact ⟨amp, semi, angle⟩
  · split at value
    · cases value
    · rcases List.mem_cons.mp value with rfl | value
      · decide
      · obtain ⟨amp, semi, -, angle⟩ := mem_urlEncode value
        exact ⟨amp, semi, angle⟩

theorem splitPairs_urlEncodeParams (carried : Carried params) :
    splitPairs [] (urlEncodeParams params) = params.map pairText := by
  have start : Reads (fun list text => list ++ splitPairs [] text) id (byte '&') []
      ([] : List Bytes) :=
    ⟨fun _ => rfl, by simp [splitPairs], by simp [splitPairs]⟩
  have all := start.addWords fun param (member : param ∈ params) =>
    reads_pair (fun c inText => ⟨(mem_pairText inText).1, (mem_pairText inText).2.1⟩) (by
      obtain ⟨filled, nulFree, -⟩ := carried param member
      rw [pairText, cStr_eq nulFree]
      simp [urlEncode_ne_nil filled])
  have whole := all.last []
  rw [← List.map_eq_flatMap] at whole
  exact whole

theorem parsePair_pairText (filled : param.1 ≠ []) (key : 0 ∉ param.1) (value : 0 ∉ param.2)
    (params : Params) :
    parsePair params (pairText param) = some (setKey (back param.1) (back param.2) params) := by
  have before : ∀ c ∈ urlEncode param.1, decide (c ≠ byte '=') = true := fun c member =>
    decide_eq_true (mem_urlEncode member).2.2.1
  rw [parsePair, pairText, cStr_eq key, cStr_eq value, List.takeWhile_append_of_pos before,
    List.dropWhile_append_of_pos before]
  split
  · next empty =>
      simp [urlEncode_ne_nil filled, urlDecode_urlEncode, empty, urlDecode, back]
  · simp [urlEncode_ne_nil filled, urlDecode_urlEncode, back]

theorem parsePairs_pairText (carried : Carried params) (read : Params) :
    parsePairs read (params.map pairText) =
      (params.foldl (fun read param => setKey (back param.1) (back param.2) read) read, true) := by
  induction params generalizing read with
  | nil => rfl
  | cons param params ih =>
    obtain ⟨⟨filled, key, value⟩, rest⟩ := List.forall_mem_cons.mp carried
    rw [List.map_cons, parsePairs, parsePair_pairText filled key value]
    exact ih rest _

/-! ## The map of parameters -/

def Increasing (params : Params) : Prop := params.Pairwise fun a b => a.1 < b.1

theorem mem_setKey :
    k ∈ (setKey key value params).map Prod.fst ↔ k = key ∨ k ∈ params.map Prod.fst := by
  induction params with
  | nil => simp [setKey]
  | cons param params ih =>
    rw [setKey]
    split
    · simp
    · split
      · next same => simp [same]
      · rw [List.map_cons, List.mem_cons, ih, List.map_cons, List.mem_cons, or_left_comm]

theorem Increasing.setKey (h : Increasing params) (key value : Bytes) :
    Increasing (setKey key value params) := by
  induction params with
  | nil => exact List.pairwise_singleton ..
  | cons param params ih =>
    obtain ⟨above, rest⟩ := List.pairwise_cons.mp h
    rw [Utils.setKey]
    split
    · next below =>
        refine List.pairwise_cons.mpr ⟨fun other member => ?_, h⟩
        rcases List.mem_cons.mp member with rfl | later
        · exact below
        · exact List.lt_trans below (above other later)
    · next notBelow =>
        split
        · exact List.pairwise_cons.mpr ⟨above, rest⟩
        · next other =>
            refine List.pairwise_cons.mpr ⟨fun b member => ?_, ih rest⟩
            rcases mem_setKey.mp (List.mem_map_of_mem member) with same | later
            · rw [same]
              exact Std.lt_of_le_of_ne notBelow fun equal => other equal.symm
            · obtain ⟨c, inParams, same⟩ := List.mem_map.mp later
              exact same ▸ above c inParams

theorem Increasing.parsePairs (h : Increasing params) (pairs : List Bytes) :
    Increasing (parsePairs params pairs).1 := by
  induction pairs generalizing params with
  | nil => exact h
  | cons pair pairs ih =>
    rw [Utils.parsePairs]
    cases parsed : parsePair params pair with
    | none => exact h
    | some params' =>
      refine ih ?_
      simp only [parsePair] at parsed
      split at parsed
      · cases parsed
      · obtain ⟨key, -, parsed⟩ := Option.bind_eq_some_iff.mp parsed
        obtain ⟨value, -, rfl⟩ := Option.map_eq_some_iff.mp parsed
        exact h.setKey key value

theorem setKey_last (last : ∀ param ∈ params, param.1 < key) :
    setKey key value params = params ++ [(key, value)] := by
  induction params with
  | nil => rfl
  | cons param params ih =>
    obtain ⟨above, rest⟩ := List.forall_mem_cons.mp last
    have notBelow : ¬key < param.1 := fun below => List.lt_irrefl _ (List.lt_trans above below)
    have other : key ≠ param.1 := fun same => List.lt_irrefl _ (same ▸ above)
    rw [setKey, if_neg notBelow, if_neg other, ih rest]
    rfl

theorem foldl_setKey (h : Increasing (before ++ params)) :
    params.foldl (fun read param => setKey param.1 param.2 read) before = before ++ params := by
  induction params generalizing before with
  | nil => simp
  | cons param params ih =>
    have last : ∀ other ∈ before, other.1 < param.1 := fun other member =>
      (List.pairwise_append.mp h).2.2 other member param List.mem_cons_self
    rw [List.foldl_cons, setKey_last last, ih (by simpa using h)]
    simp

theorem Increasing.nodup (h : Increasing params) : (params.map Prod.fst).Nodup := by
  rw [List.Nodup, List.pairwise_map]
  refine List.Pairwise.imp (fun {a b} below same => ?_) h
  exact List.lt_irrefl _ (same ▸ below)

def readBack (params : Params) : Params :=
  (params.map fun param => (back param.1, back param.2)).foldl
    (fun read param => setKey param.1 param.2 read) []

theorem mem_readBack :
    k ∈ (params.foldl (fun read param => setKey param.1 param.2 read) before).map Prod.fst ↔
      k ∈ before.map Prod.fst ∨ k ∈ params.map Prod.fst := by
  induction params generalizing before with
  | nil => simp
  | cons param params ih =>
    rw [List.foldl_cons, ih, mem_setKey, List.map_cons, List.mem_cons]
    grind

/-- The keys come back only if none of them grows: they are as many, and none is shorter. -/
theorem low_of_keys {keys : List Bytes} (nodup : keys.Nodup) (within : keys ⊆ keys.map back) :
    ∀ k ∈ keys, ∀ c ∈ k, c.toNat < 128 := by
  have perm : keys.Perm (keys.map back) :=
    (List.subperm_of_subset nodup within).perm_of_length_le (by simp)
  have total := (perm.map List.length).sum_eq
  rw [List.map_map] at total
  intro k member
  rw [← length_back_iff]
  by_contra longer
  have strict : (keys.map List.length).sum < (keys.map fun k => (back k).length).sum :=
    List.sum_lt_sum _ _ (fun k _ => length_le_back k)
      ⟨k, member, lt_of_le_of_ne (length_le_back k) (Ne.symm longer)⟩
  exact absurd total (Nat.ne_of_lt strict)

theorem readBack_eq_iff (increasing : Increasing params) :
    readBack params = params ↔
      ∀ param ∈ params, (∀ c ∈ param.1, c.toNat < 128) ∧ ∀ c ∈ param.2, c.toNat < 128 := by
  constructor
  · intro same
    have keys : ∀ k ∈ params.map Prod.fst, ∀ c ∈ k, c.toNat < 128 := by
      refine low_of_keys increasing.nodup fun k member => ?_
      rw [← same, readBack, mem_readBack] at member
      simpa using member
    have values : params.map (fun param => (back param.1, back param.2)) = params := by
      have order : Increasing (params.map fun param => (back param.1, back param.2)) := by
        refine List.pairwise_map.mpr (increasing.imp_of_mem fun {a b} inA inB below => ?_)
        rw [back_eq (keys _ (List.mem_map_of_mem inA)), back_eq (keys _ (List.mem_map_of_mem inB))]
        exact below
      have read := @foldl_setKey _ [] order
      rwa [← readBack, same, List.nil_append, eq_comm] at read
    intro param member
    refine ⟨keys _ (List.mem_map_of_mem member), length_back_iff.mp ?_⟩
    have fixed := List.map_inj_left.mp (values.trans (List.map_id params).symm) param member
    have value : back param.2 = param.2 := congrArg Prod.snd fixed
    rw [value]
  · intro low
    have fixed : params.map (fun param => (back param.1, back param.2)) = params := by
      refine (List.map_congr_left fun param member => ?_).trans (List.map_id params)
      obtain ⟨key, value⟩ := low param member
      rw [back_eq key, back_eq value]
      rfl
    rw [readBack, fixed]
    exact @foldl_setKey _ [] increasing

/-! ## The address -/

theorem optionalPart_present {mark : UInt8} {part : UInt8 → Bool} {content : Bytes}
    (all : ∀ c ∈ content, part c = true) (ends : part d = false) (rest : Bytes) :
    optionalPart mark part (mark :: (content ++ d :: rest)) = (some content, d :: rest) := by
  rw [optionalPart, if_pos rfl, List.takeWhile_append_of_pos all, List.dropWhile_append_of_pos all]
  simp [ends]

theorem mem_urlEncodeParams (member : c ∈ urlEncodeParams params) : c ≠ byte '>' := by
  rcases mem_addWords member with none | rfl | ⟨param, -, inText⟩
  · cases none
  · decide
  · exact (mem_pairText inText).2.2

theorem optionalPart_params (params : Params) :
    optionalPart (byte '?') (· ≠ byte '>')
        ((if params = [] then [] else byte '?' :: urlEncodeParams params) ++ [byte '>']) =
      (if params = [] then none else some (urlEncodeParams params), [byte '>']) := by
  split
  · rfl
  · exact optionalPart_present (fun c member => decide_eq_true (mem_urlEncodeParams member)) rfl []

theorem optionalPart_port (digits : ∀ c ∈ port, isDigit c = true)
    (ends : d = byte '?' ∨ d = byte '>') (rest : Bytes) :
    optionalPart (byte ':') isDigit ((if port = [] then [] else byte ':' :: port) ++ d :: rest) =
      (if port = [] then none else some port, d :: rest) := by
  split
  · rcases ends with rfl | rfl <;> rfl
  · refine optionalPart_present digits ?_ rest
    rcases ends with rfl | rfl <;> rfl

theorem splitSin_text (plain : ∀ c ∈ host, isHostChar c = true)
    (digits : ∀ c ∈ port, isDigit c = true) :
    splitSin (Sinful.text host port params) =
      some (host, if port = [] then none else some port,
        if params = [] then none else some (urlEncodeParams params)) := by
  obtain ⟨d, rest, tail, ends⟩ : ∃ d rest,
      (if params = [] then [] else byte '?' :: urlEncodeParams params) ++ [byte '>'] = d :: rest ∧
        (d = byte '?' ∨ d = byte '>') := by
    split
    · exact ⟨_, _, rfl, .inr rfl⟩
    · exact ⟨_, _, rfl, .inl rfl⟩
  obtain ⟨e, more, mid, stops⟩ : ∃ e more,
      (if port = [] then [] else byte ':' :: port) ++ d :: rest = e :: more ∧
        isHostChar e = false := by
    split
    · refine ⟨d, rest, rfl, ?_⟩
      rcases ends with rfl | rfl <;> rfl
    · exact ⟨_, _, rfl, rfl⟩
  have shape : Sinful.text host port params = byte '<' :: (host ++ e :: more) := by
    rw [Sinful.text, ← mid, ← tail]
    simp
  have portPart := optionalPart_port digits ends rest
  have paramsPart := optionalPart_params params
  rw [mid] at portPart
  rw [tail] at paramsPart
  rw [splitSin, shape, List.head?_cons, if_pos rfl, List.tail_cons,
    List.takeWhile_append_of_pos plain, List.dropWhile_append_of_pos plain,
    List.takeWhile_cons_of_neg (by simp [stops]), List.dropWhile_cons_of_neg (by simp [stops])]
  simp only [portPart, paramsPart, List.append_nil, if_true]

namespace Sinful

theorem ofString_text (plain : ∀ c ∈ host, isHostChar c = true)
    (digits : ∀ c ∈ port, isDigit c = true) (carried : Carried params) :
    (ofString (some (text host port params))).host = host ∧
      (ofString (some (text host port params))).port = port ∧
      (ofString (some (text host port params))).params = readBack params := by
  have starts : (text host port params).head? = some (byte '<') := rfl
  have parsed := @splitSin_text port params host plain digits
  have portBack : (if port = [] then none else some port).getD [] = port := by
    split
    · next empty => exact empty.symm
    · rfl
  have read : (parseUrlEncodedParams (urlEncodeParams params)).1 = readBack params := by
    rw [parseUrlEncodedParams, splitPairs_urlEncodeParams carried, parsePairs_pairText carried,
      readBack, List.foldl_map]
  simp only [ofString, starts, if_true, parsed]
  cases params with
  | nil => exact ⟨rfl, portBack, rfl⟩
  | cons param params => exact ⟨rfl, portBack, read⟩

theorem ofString_getSinful (sinful : Option Bytes) :
    ofString (ofString sinful).getSinful = ofString sinful := by
  cases sinful with
  | none => rfl
  | some sinful =>
    have kept : (ofString (some sinful)).sinful =
        if sinful.head? = some (byte '<') then sinful else byte '<' :: sinful ++ [byte '>'] := by
      simp only [ofString]
      split <;> rfl
    have starts : (ofString (some sinful)).sinful.head? = some (byte '<') := by
      rw [kept]
      split
      · assumption
      · rfl
    have filled : (ofString (some sinful)).sinful ≠ [] := by
      intro empty
      rw [empty] at starts
      cases starts
    rw [getSinful, if_neg filled, kept]
    rw [kept] at starts
    simp only [ofString, starts, if_true]

/-- Every object has its parameters in order, and its string is generated from its parts or
gives them back. -/
theorem Built.kept {s : Sinful} (built : Built s) :
    Increasing s.params ∧
      (s.sinful = text s.host s.port s.params ∨ Sinful.ofString s.getSinful = s) := by
  induction built with
  | ofString sinful =>
    refine ⟨?_, .inr (ofString_getSinful sinful)⟩
    cases sinful with
    | none => exact .nil
    | some sinful =>
      simp only [Sinful.ofString]
      split
      · exact .nil
      · exact .nil
      · exact Increasing.parsePairs .nil _
  | setHost host built ih => exact ⟨ih.1, .inl rfl⟩
  | setPort port built ih => exact ⟨ih.1, .inl rfl⟩
  | setParam key value built ih =>
    cases value with
    | none => exact ⟨ih.1.filter _, .inl rfl⟩
    | some value => exact ⟨ih.1.setKey key value, .inl rfl⟩
  | clearParams built ih => exact ⟨.nil, .inl rfl⟩

/-- An address gives its host, port and parameters back exactly when its string was not
generated from a key or value with a byte above 127. -/
theorem address_round_trip_iff {s : Sinful} (built : Built s)
    (plain : ∀ c ∈ s.host, c ≠ byte ':' ∧ c ≠ byte '?' ∧ c ≠ byte '>')
    (digits : ∀ c ∈ s.port, isDigit c = true)
    (carried : ∀ param ∈ s.params, param.1 ≠ [] ∧ 0 ∉ param.1 ∧ 0 ∉ param.2) :
    ((ofString s.getSinful).host = s.host ∧ (ofString s.getSinful).port = s.port ∧
        (ofString s.getSinful).params = s.params) ↔
      (s.sinful = text s.host s.port s.params → ∀ param ∈ s.params,
        (∀ c ∈ param.1, c.toNat < 128) ∧ ∀ c ∈ param.2, c.toNat < 128) := by
  obtain ⟨increasing, kept⟩ := built.kept
  by_cases generated : s.sinful = text s.host s.port s.params
  · have filled : s.sinful ≠ [] := by
      rw [generated]
      exact List.cons_ne_nil _ _
    have hostPlain : ∀ c ∈ s.host, isHostChar c = true := by
      intro c member
      simp [isHostChar, plain c member]
    obtain ⟨host, port, params⟩ := ofString_text hostPlain digits carried
    rw [getSinful, if_neg filled, generated, host, port, params, readBack_eq_iff increasing]
    simp
  · rw [kept.resolve_left generated]
    exact iff_of_true ⟨rfl, rfl, rfl⟩ fun regenerated => absurd regenerated generated

/-- The address `<h?a=b>`. -/
theorem address_round_trip_iff_one :
    ((ofString (((ofString none).setHost [104]).setParam [97] (some [98])).getSinful).host = [104] ∧
      (ofString (((ofString none).setHost [104]).setParam [97] (some [98])).getSinful).port = [] ∧
      (ofString (((ofString none).setHost [104]).setParam [97] (some [98])).getSinful).params =
        [([97], [98])]) :=
  (address_round_trip_iff (.setParam [97] (some [98]) (.setHost [104] (.ofString none)))
    (by decide +kernel) (by decide +kernel) (by decide +kernel)).mpr
      fun _ => by decide +kernel

/-- The value 0x80 is written as `%ffffff80`, and comes back as the bytes FF `ffff80`. -/
theorem high_byte_mangled :
    (((ofString none).setHost [104]).setParam [97] (some [0x80])).getSinful =
        some (ascii "<h?a=%ffffff80>") ∧
      (ofString (((ofString none).setHost [104]).setParam [97] (some [0x80])).getSinful).params =
        [([97], 0xFF :: ascii "ffff80")] := by
  decide

end Sinful
end Condor.Utils
