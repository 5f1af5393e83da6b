import Mathlib
import Condor.Cedar.WireIntegers

/-! NULL is put as one marker byte, and a string as its bytes and a NUL; with a key the length goes
first. A string can begin with the marker too. -/
namespace Condor.Cedar
open Condor.Lib Condor.Utils

/-- What a `char *` that is not NULL points to, without the NUL that ends it. -/
structure CString where
  bytes : Bytes
  noNul : nul ∉ bytes

namespace Stream
variable {C : Cipher}

/-- Both ends use a representation in which an `int` means the same. -/
def Readable (s : Stream C) (peer : ByteOrder) : Prop :=
  s.code = .external ∨ (s.code = .internal ∧ peer = s.host)

/-- The other end gets the value, stands where the put ended, and its key is where the
sender's is. -/
def Arrives {α : Type} (s : Stream C) (put : Coding C Unit) (peer : ByteOrder)
    (get : Coding C α) (a : α) : Prop :=
  ∀ buf rest,
    (transfer s put peer buf rest get).1 = some a ∧
    (transfer s put peer buf rest get).2.wire = rest ∧
    (transfer s put peer buf rest get).2.crypto = (put { s with wire := [] }).2.crypto

theorem awaiting_append (s : Stream C) (a b rest : Bytes) :
    s.awaiting (a ++ b) rest = s.awaiting a ((C.wrap (s.past a).crypto b).1 ++ rest) := by
  simp only [awaiting, past, C.wrap_append, List.append_assoc]

theorem load_memory (host : ByteOrder) {w size : Nat} (full : 2 ^ w = 256 ^ size) (x : BitVec w) :
    load host w (memory host size x) = x := by
  apply BitVec.eq_of_toNat_eq
  have bound := x.isLt
  cases host with
  | little =>
    rw [load, memory, ofLittleEndian_littleEndian, ← full, BitVec.toNat_ofNat, Nat.mod_mod,
      Nat.mod_eq_of_lt bound]
  | big =>
    rw [load, memory, ofBigEndian_bigEndian, ← full, BitVec.toNat_ofNat, Nat.mod_mod,
      Nat.mod_eq_of_lt bound]

def intBytes (s : Stream C) (i : BitVec 32) : Bytes :=
  match s.code with
  | .internal => memory s.host 4 i
  | _ => word i.toInt

variable {peer : ByteOrder} {s : Stream C}

theorem putInt_readable (readable : s.Readable peer)
    (i : BitVec 32) : putInt i s = (some (), s.send (s.intBytes i)) := by
  rcases readable with external | ⟨internal, -⟩
  · rw [intBytes, external]
    exact putInt_apply external i
  · rw [intBytes, putInt, Attempt.look_bind, internal]
    rfl

theorem getInt_readable (readable : s.Readable peer) (i : BitVec 32) (buf more rest : Bytes) :
    getInt ((s.other peer buf).awaiting (s.intBytes i ++ more) rest) =
      (some i, ((s.other peer buf).past (s.intBytes i)).awaiting more rest) := by
  rcases readable with external | ⟨internal, rfl⟩
  · have fits : Fits .signed 32 i.toInt := fits_value .signed i
    have kept : BitVec.ofInt 32 i.toInt = i := BitVec.ofInt_toInt
    have got := getInt_word (s := s.other peer buf) external
      ((C.wrap ((s.other peer buf).past (word i.toInt)).crypto more).1 ++ rest)
      (fits.mono (by decide))
    rw [if_pos fits, kept] at got
    rw [intBytes, external, awaiting_append]
    exact got
  · have size : (memory s.host 4 i).length = 4 := by
      cases s.host with
      | little => exact length_littleEndian _ _
      | big => exact length_bigEndian _ _
    have got := getBytes_awaiting (s.other s.host buf) size more rest
    rw [intBytes, internal, getInt, Attempt.look_bind, awaiting_code, other_code, internal]
    change getInternal 4 32 _ = _
    rw [getInternal, Attempt.look_bind, Attempt.bind_of_some _ got]
    change (some (load s.host 32 (memory s.host 4 i)), _) = _
    rw [load_memory _ rfl]

/-! ### What `put` writes -/

def header (s : Stream C) (len : BitVec 32) : Bytes :=
  if s.getEncryption then s.intBytes len else []

theorem send_nil (open_ : s.crypto = none) : s.send [] = s := by
  cases s with
  | mk host code crypto wire buf =>
    cases open_
    simp only [send, Cipher.wrap_none, List.append_nil]

theorem putLen_apply (readable : s.Readable peer)
    (len : BitVec 32) : putLen len s = (some (), s.send (s.header len)) := by
  rw [putLen, Attempt.look_bind, header]
  by_cases encrypted : s.getEncryption = true
  · rw [if_pos encrypted, if_pos encrypted]
    exact putInt_readable readable len
  · have plain : s.crypto = none := Option.not_isSome_iff_eq_none.mp encrypted
    rw [if_neg encrypted, if_neg encrypted, send_nil plain]
    rfl

theorem putString_none (readable : s.Readable peer) :
    putString none s = (some (), s.send (s.header 1 ++ [binNullChar])) := by
  have go : (putLen 1 >>= fun _ => putBytes [binNullChar]) s =
      (some (), s.send (s.header 1 ++ [binNullChar])) := by
    rw [Attempt.bind_of_some _ (putLen_apply readable 1), putBytes_apply, send_send]
  rw [putString, Attempt.look_bind]
  rcases readable with code | ⟨code, -⟩ <;> rw [code] <;> exact go

/-- The `int` that holds the size of a string with its NUL. -/
def lenOf (t : Bytes) : BitVec 32 := BitVec.ofNat 32 (t.length + 1)

theorem putString_some (readable : s.Readable peer) (t : Bytes) :
    putString (some t) s =
      if 0 ≤ (lenOf t).toInt then
        (some (), s.send (s.header (lenOf t) ++ (t ++ [nul]).take (lenOf t).toNat))
      else (none, s.send (s.header (lenOf t))) := by
  have go : (putLen (lenOf t) >>= fun _ =>
      if 0 ≤ (lenOf t).toInt then putBytes ((t ++ [nul]).take (lenOf t).toNat)
      else Attempt.fail) s =
      if 0 ≤ (lenOf t).toInt then
        (some (), s.send (s.header (lenOf t) ++ (t ++ [nul]).take (lenOf t).toNat))
      else (none, s.send (s.header (lenOf t))) := by
    rw [Attempt.bind_of_some _ (putLen_apply readable (lenOf t))]
    by_cases natural : 0 ≤ (lenOf t).toInt
    · rw [if_pos natural, if_pos natural, putBytes_apply, send_send]
    · rw [if_neg natural, if_neg natural]
      rfl
  rw [putString, Attempt.look_bind]
  rcases readable with code | ⟨code, -⟩ <;> rw [code] <;> exact go

/-! ### What `get` makes of it -/

theorem getString_readable (readable : s.Readable peer) (buf data rest : Bytes) :
    getString ((s.other peer buf).awaiting data rest) =
      (if !s.getEncryption then getStringPlain else getStringEncrypted)
        ((s.other peer buf).awaiting data rest) := by
  rw [getString, getStringPtr, Attempt.look_bind, awaiting_code, other_code]
  rcases readable with code | ⟨code, -⟩ <;> rw [code] <;> rfl

theorem getString_encrypted (readable : s.Readable peer)
    (encrypted : s.getEncryption = true) (len : BitVec 32) (natural : 0 ≤ len.toInt)
    (data : Bytes) (size : data.length = len.toNat) (buf rest : Bytes) :
    getString ((s.other peer buf).awaiting (s.header len ++ data) rest) =
      (some (decrypted (data ++ buf.drop data.length)),
        { (s.other peer buf).past (s.header len ++ data) with
          wire := rest
          decryptBuf := data ++ buf.drop data.length }) := by
  have head : s.header len = s.intBytes len := by rw [header, if_pos encrypted]
  have first := getInt_readable readable len buf data rest
  have second := getBytes_awaiting ((s.other peer buf).past (s.intBytes len)) size [] rest
  rw [List.append_nil, awaiting_nil, past_past] at second
  rw [getString_readable readable, encrypted, head]
  change getStringEncrypted _ = _
  rw [getStringEncrypted, Attempt.bind_of_some _ first, if_neg (by omega),
    Attempt.bind_of_some _ second]
  rfl

variable {r : Stream C} {t : Bytes}
variable {rest : Bytes}

/-- Without a key the next byte decides. -/
theorem getStringPlain_marker (plain : r.crypto = none) (next : r.wire = binNullChar :: rest) :
    getStringPlain r = (some none, { r with wire := rest }) := by
  have peeked : peek r = (some binNullChar, r) := by
    rw [peek, Attempt.look_bind, next]
    rfl
  have skipped : getBytes 1 r = (some [binNullChar], { r with wire := rest }) := by
    rw [getBytes_apply, next, plain, if_pos (by simp)]
    rfl
  rw [getStringPlain, Attempt.bind_of_some _ peeked, if_pos rfl, Attempt.bind_of_some _ skipped]
  rfl

theorem cString_append_nul (noNul : nul ∉ t) (more : Bytes) : cString (t ++ nul :: more) = t := by
  have plain : ∀ b ∈ t, decide (b ≠ nul) = true := by
    intro b inside
    exact decide_eq_true fun same => noNul (same ▸ inside)
  rw [cString, List.takeWhile_append_of_pos plain]
  exact List.append_nil t

theorem head_append_nul (first : t.head? ≠ some binNullChar) (more : Bytes) :
    (t ++ nul :: more).head? ≠ some binNullChar := by
  cases t with
  | nil => exact fun same => absurd (Option.some.inj same) (by decide)
  | cons c t => exact first

theorem not_stop (noNul : nul ∉ t) : ∀ b ∈ t, decide (b = nul) = false := by
  intro b inside
  exact decide_eq_false fun same => noNul (same ▸ inside)

theorem getStringPlain_string (noNul : nul ∉ t) (next : r.wire = t ++ nul :: rest)
    (first : t.head? ≠ some binNullChar) :
    getStringPlain r = (some (some t), { r with wire := rest }) := by
  have other := head_append_nul first rest
  obtain ⟨c, more, front⟩ := List.exists_cons_of_ne_nil (l := t ++ nul :: rest) (by simp)
  rw [front] at other
  replace other : c ≠ binNullChar := fun same => other (congrArg some same)
  have peeked : peek r = (some c, r) := by
    rw [peek, Attempt.look_bind, next, front]
    rfl
  have scanned := scanUntil_whole (c := nul) (not_stop noNul) (by decide) rest
  have got : getPtr nul r = (some (t ++ [nul]), { r with wire := rest }) := by
    rw [getPtr, Attempt.look_bind, next, scanned]
    rfl
  rw [getStringPlain, Attempt.bind_of_some _ peeked, if_neg other, Attempt.bind_of_some _ got,
    cString_append_nul noNul []]
  rfl

/-- What holds no NUL is not a string. -/
theorem getStringPlain_torn (noNul : nul ∉ r.wire) (t : Bytes) :
    (getStringPlain r).1 ≠ some (some t) := by
  rw [getStringPlain]
  cases wire : r.wire with
  | nil =>
    have peeked : peek r = (none, r) := by
      rw [peek, Attempt.look_bind, wire]
      rfl
    rw [Attempt.bind_of_none _ peeked]
    exact (Option.some_ne_none _).symm
  | cons c more =>
    have peeked : peek r = (some c, r) := by
      rw [peek, Attempt.look_bind, wire]
      rfl
    rw [Attempt.bind_of_some _ peeked]
    by_cases marker : c = binNullChar
    · rw [if_pos marker]
      rcases taken : getBytes 1 r with ⟨_ | bs, r'⟩
      · rw [Attempt.bind_of_none _ taken]
        exact (Option.some_ne_none _).symm
      · rw [Attempt.bind_of_some _ taken]
        exact fun same => Option.some_ne_none _ (Option.some.inj same).symm
    · have got : getPtr nul r = (none, r) := by
        rw [getPtr, Attempt.look_bind, scanUntil_torn (not_stop noNul)]
        rfl
      rw [if_neg marker, Attempt.bind_of_none _ got]
      exact (Option.some_ne_none _).symm

theorem getString_plain (readable : s.Readable peer)
    (plain : s.crypto = none) (len : BitVec 32) (data buf rest : Bytes) :
    getString ((s.other peer buf).awaiting (s.header len ++ data) rest) =
      getStringPlain { s.other peer buf with wire := data ++ rest } := by
  obtain ⟨host, code, crypto, wire, buf₀⟩ := s
  cases plain
  rw [getString_readable readable, awaiting, other, Cipher.wrap_none]
  rfl

theorem past_plain (plain : s.crypto = none) (data : Bytes) : s.past data = s := by
  cases s with
  | mk host code crypto wire buf =>
    cases plain
    rw [past, Cipher.wrap_none]

theorem arrives_of_send {α : Type} {put : Coding C Unit} {get : Coding C α} {a : α} {bs : Bytes}
    (sends : put { s with wire := [] } = (some (), ({ s with wire := [] } : Stream C).send bs))
    (gets : ∀ buf rest, ∃ buf', get ((s.other peer buf).awaiting bs rest) =
      (some a, { (s.other peer buf).past bs with wire := rest, decryptBuf := buf' })) :
    s.Arrives put peer get a := by
  intro buf rest
  obtain ⟨buf', got⟩ := gets buf rest
  rw [transfer_of_send sends, got, sends]
  exact ⟨rfl, rfl, rfl⟩

theorem null_arrives (readable : s.Readable peer) :
    s.Arrives (putString none) peer getString none := by
  refine arrives_of_send (putString_none readable) fun buf rest => ?_
  by_cases encrypted : s.getEncryption = true
  · exact ⟨_, getString_encrypted readable encrypted 1 (by decide) [binNullChar] rfl buf rest⟩
  · have plain : s.crypto = none := Option.not_isSome_iff_eq_none.mp encrypted
    refine ⟨buf, ?_⟩
    change getString ((s.other peer buf).awaiting (s.header 1 ++ [binNullChar]) rest) = _
    rw [getString_plain readable plain, past_plain (s := s.other peer buf) plain]
    exact getStringPlain_marker (r := { s.other peer buf with wire := [binNullChar] ++ rest })
      plain rfl

theorem lenOf_of_lt (short : t.length + 1 < 2 ^ 31) :
    (lenOf t).toNat = t.length + 1 ∧ 0 ≤ (lenOf t).toInt := by
  have size : (lenOf t).toNat = t.length + 1 := by
    rw [lenOf, BitVec.toNat_ofNat]
    omega
  refine ⟨size, ?_⟩
  rw [BitVec.toInt_eq_toNat_cond]
  split <;> omega

theorem lenOf_of_le (long : 2 ^ 31 ≤ t.length + 1) (natural : 0 ≤ (lenOf t).toInt) :
    (lenOf t).toNat < t.length := by
  have bound : (lenOf t).toNat = (t.length + 1) % 2 ^ 32 := by rw [lenOf, BitVec.toNat_ofNat]
  have form := BitVec.toInt_eq_toNat_cond (lenOf t)
  split at form <;> omega

theorem putString_short (readable : s.Readable peer) (short : t.length + 1 < 2 ^ 31) :
    putString (some t) s = (some (), s.send (s.header (lenOf t) ++ (t ++ [nul]))) := by
  obtain ⟨size, natural⟩ := lenOf_of_lt short
  have whole : (t ++ [nul]).take (lenOf t).toNat = t ++ [nul] := by
    rw [size]
    exact List.take_of_length_le (by simp)
  rw [putString_some readable, if_pos natural, whole]

theorem string_arrives (readable : s.Readable peer)
    (t : CString) (first : t.bytes.head? ≠ some binNullChar) (short : t.bytes.length + 1 < 2 ^ 31) :
    s.Arrives (putString (some t.bytes)) peer getString (some t.bytes) := by
  obtain ⟨size, natural⟩ := lenOf_of_lt short
  have sends := putString_short (s := { s with wire := [] }) readable short
  refine arrives_of_send sends fun buf rest => ?_
  by_cases encrypted : s.getEncryption = true
  · refine ⟨t.bytes ++ [nul] ++ buf.drop (t.bytes ++ [nul]).length, ?_⟩
    refine (getString_encrypted readable encrypted _ natural _ (by simp [size]) buf rest).trans ?_
    have value : ∀ more, decrypted (t.bytes ++ [nul] ++ more) = some t.bytes := by
      intro more
      rw [List.append_assoc, List.singleton_append, decrypted, if_neg (head_append_nul first _)]
      exact congrArg some (cString_append_nul t.noNul more)
    rw [value]
    rfl
  · have plain : s.crypto = none := Option.not_isSome_iff_eq_none.mp encrypted
    refine ⟨buf, ?_⟩
    refine (getString_plain readable plain (lenOf t.bytes) (t.bytes ++ [nul]) buf rest).trans ?_
    rw [past_plain (s := s.other peer buf) plain]
    exact getStringPlain_string t.noNul (by simp) first

theorem length_of_decrypted {buf : Bytes} (value : decrypted buf = some t) :
    t.length ≤ buf.length := by
  rw [decrypted] at value
  split at value
  · cases value
  · cases value
    exact (List.takeWhile_sublist _).length_le

/-- The rest of a string that is too long is never put. -/
theorem long_never_arrives (readable : s.Readable peer)
    (t : CString) (long : 2 ^ 31 ≤ t.bytes.length + 1) :
    ¬ s.Arrives (putString (some t.bytes)) peer getString (some t.bytes) := by
  intro arrives
  have sends := putString_some (s := { s with wire := [] }) readable t.bytes
  have got := (arrives [] []).1
  by_cases natural : 0 ≤ (lenOf t.bytes).toInt
  · have less := lenOf_of_le long natural
    have data : (t.bytes ++ [nul]).take (lenOf t.bytes).toNat =
        t.bytes.take (lenOf t.bytes).toNat := List.take_append_of_le_length (by omega)
    rw [if_pos natural, data] at sends
    rw [transfer_of_send sends] at got
    by_cases encrypted : s.getEncryption = true
    · have size : (t.bytes.take (lenOf t.bytes).toNat).length = (lenOf t.bytes).toNat := by
        rw [List.length_take]
        omega
      have read := congrArg Prod.fst (getString_encrypted readable encrypted _ natural _ size [] [])
      have short := length_of_decrypted (Option.some.inj (read.symm.trans got))
      rw [List.drop_nil, List.append_nil, size] at short
      omega
    · have plain : s.crypto = none := Option.not_isSome_iff_eq_none.mp encrypted
      have read := congrArg Prod.fst (getString_plain readable plain (lenOf t.bytes)
        (t.bytes.take (lenOf t.bytes).toNat) [] [])
      refine getStringPlain_torn ?_ t.bytes (read.symm.trans got)
      simp only [List.append_nil]
      exact fun inside => t.noNul (List.mem_of_mem_take inside)
  · rw [if_neg natural] at sends
    rw [transfer, sends] at got
    cases got

theorem marker_never_arrives (readable : s.Readable peer)
    (t : CString) (first : t.bytes.head? = some binNullChar)
    (short : t.bytes.length + 1 < 2 ^ 31) :
    ¬ s.Arrives (putString (some t.bytes)) peer getString (some t.bytes) := by
  intro arrives
  obtain ⟨more, front⟩ : ∃ more, t.bytes = binNullChar :: more := List.head?_eq_some_iff.mp first
  obtain ⟨size, natural⟩ := lenOf_of_lt short
  have sends := putString_short (s := { s with wire := [] }) readable short
  have got := (arrives [] []).1
  rw [transfer_of_send sends] at got
  by_cases encrypted : s.getEncryption = true
  · have read := congrArg Prod.fst (getString_encrypted readable encrypted _ natural
      (t.bytes ++ [nul]) (by simp [size]) [] [])
    have value := Option.some.inj (read.symm.trans got)
    rw [front] at value
    cases value
  · have plain : s.crypto = none := Option.not_isSome_iff_eq_none.mp encrypted
    have read := getString_plain readable plain (lenOf t.bytes) (t.bytes ++ [nul]) [] []
    have next : t.bytes ++ [nul] ++ [] = binNullChar :: (more ++ [nul]) := by rw [front]; simp
    have taken := getStringPlain_marker
      (r := { s.other peer [] with wire := t.bytes ++ [nul] ++ [] }) plain next
    have value := (congrArg Prod.fst (read.trans taken)).symm.trans got
    cases value

/-- Strings come back as they were put, unless they begin with the byte that stands for
NULL or their size is not an `int`. -/
theorem string_arrives_iff (s : Stream C) (peer : ByteOrder) (readable : s.Readable peer)
    (t : Option CString) :
    s.Arrives (putString (t.map CString.bytes)) peer getString (t.map CString.bytes) ↔
      ∀ u, t = some u →
        u.bytes.head? ≠ some binNullChar ∧ u.bytes.length + 1 < 2 ^ 31 := by
  cases t with
  | none =>
    refine iff_of_true (null_arrives readable) ?_
    intro u same
    cases same
  | some t =>
    constructor
    · intro arrives u same
      cases same
      have short : t.bytes.length + 1 < 2 ^ 31 := by
        apply Nat.lt_of_not_le
        exact fun long => long_never_arrives readable t long arrives
      exact ⟨fun first => marker_never_arrives readable t first short arrives, short⟩
    · intro fine
      obtain ⟨first, short⟩ := fine t rfl
      exact string_arrives readable t first short

theorem string_arrives_hello :
    (⟨.little, .external, none, [], []⟩ : Stream noCipher).Readable .big ∧
    (⟨.little, .external, none, [], []⟩ : Stream noCipher).Arrives
      (putString (some (ascii "hello"))) .big getString (some (ascii "hello")) := by
  refine ⟨.inl rfl, ?_⟩
  refine (string_arrives_iff _ .big (.inl rfl) (some ⟨ascii "hello", by decide⟩)).mpr ?_
  intro u same
  cases same
  exact ⟨by decide, by decide⟩

/-- The byte 0xAD before a letter: the other end reads NULL and then stands before the
letter. -/
theorem marker_string_reads_null :
    let got := transfer (⟨.little, .external, none, [], []⟩ : Stream noCipher)
      (putString (some [0xAD, 97])) .little [] [] getString
    got.1 = some none ∧ got.2.wire = [97, nul] := by
  decide +kernel

end Stream
end Condor.Cedar
