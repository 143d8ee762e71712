import RocksBatch.Batch.Record

set_option autoImplicit false

/-! # The `WriteBatch` object and its header

A `WriteBatch` holds its representation `rep_`, the content flags, the save-point stack,
the WAL termination point and the byte limit `max_bytes_`. The representation starts with
a 12-byte header, the sequence number (`fixed64`) and the count (`fixed32`), read and
written by `WriteBatchInternal::Sequence`, `SetSequence`, `Count` and `SetCount`.

The count is a C++ `int`: `Count` reads the four header bytes as a two's-complement value
and `SetCount` stores an `int` back modulo `2^32`. `headerRep seq cnt payload` names a
representation by its parts; the lemmas about it are the only facts about header bytes the
rest of the development uses.
-/

namespace RocksBatch

/-! ## `int` and `uint32_t` -/

/-- A `uint32_t` read as an `int`: two's complement. -/
def toInt32 (v : UInt32) : Int := if v.toNat < 2 ^ 31 then v.toNat else v.toNat - 2 ^ 32

/-- An `int` stored as a `uint32_t`: modulo `2^32`. -/
def ofInt32 (n : Int) : UInt32 := (n % 2 ^ 32).toNat.toUInt32

theorem ofInt32_toInt32_add (v : UInt32) (k : Nat) :
    ofInt32 (toInt32 v + k) = (v.toNat + k).toUInt32 := by
  apply UInt32.toNat.inj
  have hv := UInt32.toNat_lt_two_pow v
  simp only [ofInt32, toInt32, toNat_toUInt32]
  split <;> omega

theorem ofInt32_toInt32_add_one (v : UInt32) : ofInt32 (toInt32 v + 1) = v + 1 := by
  have h := ofInt32_toInt32_add v 1
  rw [Nat.cast_one] at h
  apply UInt32.toNat.inj
  rw [h, toNat_toUInt32, UInt32.toNat_add_one]

@[simp] theorem ofInt32_toInt32 (v : UInt32) : ofInt32 (toInt32 v) = v := by
  simpa using ofInt32_toInt32_add v 0

theorem ofInt32_toInt32_add_ofInt32 (v : UInt32) (n : Int) :
    ofInt32 (toInt32 v + n) = v + ofInt32 n := by
  apply UInt32.toNat.inj
  have hv := UInt32.toNat_lt_two_pow v
  rw [UInt32.toNat_add]
  simp only [ofInt32, toInt32, toNat_toUInt32]
  split <;> omega

theorem toInt32_toUInt32 {n : Nat} (h : n < 2 ^ 31) : toInt32 n.toUInt32 = n := by
  rw [toInt32, toNat_toUInt32_of_lt (by omega : n < 2 ^ 32), if_pos h]

/-- A count that `Count` reads as the number `n` of records is `n` stored modulo `2^32`, and
`n < 2^31`. -/
theorem eq_toUInt32_of_toInt32_eq {v : UInt32} {n : Nat} (h : toInt32 v = n) :
    v = n.toUInt32 ∧ n < 2 ^ 31 := by
  have hv := UInt32.toNat_lt_two_pow v
  unfold toInt32 at h
  split at h
  · refine ⟨UInt32.toNat.inj ?_, by omega⟩
    rw [toNat_toUInt32_of_lt (by omega)]
    omega
  · omega

/-! ## Save points and the batch -/

/-- Modelled from the spec: `SavePoint` (`write_batch.h`, not among the sources), §3.3:
the size of the representation, the count and the content flags at one moment. The
default value is the cleared one. -/
structure SavePoint where
  size : Nat
  count : Int
  content_flags : Nat
  deriving DecidableEq, Repr

/-- `SavePoint()` and `SavePoint::clear`. -/
def SavePoint.cleared : SavePoint := ⟨0, 0, 0⟩

/-- `SavePoint::is_cleared`: `(size | count | content_flags) == 0`. -/
def SavePoint.isCleared (sp : SavePoint) : Bool :=
  sp.size == 0 && sp.count == 0 && sp.content_flags == 0

/-- The state of a `WriteBatch`. The save-point stack is a list with its top first; the
null `save_points_` pointer and an empty stack behave alike everywhere. -/
structure WriteBatch where
  savePoints : List SavePoint
  walTermPoint : SavePoint
  contentFlags : Nat
  maxBytes : Nat
  rep : Bytes
  deriving DecidableEq, Repr

/-- Modelled from the spec: `WriteBatchInternal::kHeader`, the 12-byte header of §3.1. -/
def kHeader : Nat := 12

namespace WriteBatch

/-- `WriteBatch(reserved_bytes, max_bytes)`: the representation is a zeroed header. -/
def new (max_bytes : Nat) : WriteBatch :=
  { savePoints := [], walTermPoint := .cleared, contentFlags := 0, maxBytes := max_bytes,
    rep := List.replicate kHeader 0 }

/-- `WriteBatch(rep)`: a batch over given bytes, its contents not classified yet. -/
def ofRep (rep : Bytes) : WriteBatch :=
  { savePoints := [], walTermPoint := .cleared, contentFlags := ContentFlags.deferred,
    maxBytes := 0, rep := rep }

/-- `GetDataSize`. -/
def getDataSize (b : WriteBatch) : Nat := b.rep.length

/-- `WriteBatchInternal::Count`. -/
def count (b : WriteBatch) : Int := toInt32 (decodeFixed32 (b.rep.drop 8))

/-- `WriteBatchInternal::SetCount`: overwrite header bytes 8 to 11. -/
def setCount (b : WriteBatch) (n : Int) : WriteBatch :=
  { b with rep := b.rep.take 8 ++ encodeFixed32 (ofInt32 n) ++ b.rep.drop 12 }

/-- `WriteBatchInternal::Sequence`. -/
def sequence (b : WriteBatch) : UInt64 := decodeFixed64 b.rep

/-- `WriteBatchInternal::SetSequence`: overwrite header bytes 0 to 7. -/
def setSequence (b : WriteBatch) (seq : UInt64) : WriteBatch :=
  { b with rep := encodeFixed64 seq ++ b.rep.drop 8 }

end WriteBatch

/-! ## Representations by their parts -/

/-- The representation with sequence `seq`, header count `cnt` and the records `payload`. -/
def headerRep (seq : UInt64) (cnt : UInt32) (payload : Bytes) : Bytes :=
  encodeFixed64 seq ++ encodeFixed32 cnt ++ payload

@[simp] theorem length_headerRep (seq : UInt64) (cnt : UInt32) (payload : Bytes) :
    (headerRep seq cnt payload).length = kHeader + payload.length := by
  simp [headerRep, kHeader]; omega

theorem headerRep_append (seq : UInt64) (cnt : UInt32) (p q : Bytes) :
    headerRep seq cnt p ++ q = headerRep seq cnt (p ++ q) := by
  simp [headerRep]

@[simp] theorem drop_kHeader_headerRep (seq : UInt64) (cnt : UInt32) (payload : Bytes) :
    (headerRep seq cnt payload).drop kHeader = payload := by
  rw [headerRep, List.append_assoc, kHeader,
    List.drop_append_eq_append_drop, List.drop_of_length_le (by simp)]
  simp [List.drop_left' (length_encodeFixed32 cnt)]

theorem take_headerRep (seq : UInt64) (cnt : UInt32) (payload : Bytes) (n : Nat) :
    (headerRep seq cnt payload).take (kHeader + n) = headerRep seq cnt (payload.take n) := by
  rw [headerRep, List.append_assoc, List.take_append_eq_append_take,
    List.take_of_length_le (by simp [kHeader]; omega), List.take_append_eq_append_take,
    List.take_of_length_le (by simp [kHeader]; omega)]
  simp [headerRep, kHeader, show 12 + n - 8 - 4 = n by omega]

theorem encodeFixed_decodeFixed (l : Bytes) : encodeFixed l.length (decodeFixed l) = l := by
  induction l with
  | nil => rfl
  | cons b l ih =>
      have hb := UInt8.toNat_lt_256 b
      have hb' : b.toNat.toUInt8 = b := UInt8.toNat.inj (by simp [Nat.mod_eq_of_lt hb])
      simp only [List.length_cons, encodeFixed, decodeFixed]
      rw [Nat.add_mul_mod_self_left, Nat.mod_eq_of_lt hb, hb',
        Nat.add_mul_div_left _ _ (by decide), Nat.div_eq_of_lt hb, Nat.zero_add, ih]

theorem decodeFixed_lt (l : Bytes) : decodeFixed l < 256 ^ l.length := by
  induction l with
  | nil => simp [decodeFixed]
  | cons b l ih =>
      have := UInt8.toNat_lt_256 b
      simp only [decodeFixed, List.length_cons, pow_succ]
      omega

/-- Every representation of at least `kHeader` bytes is a header and a payload. -/
theorem eq_headerRep {rep : Bytes} (h : kHeader ≤ rep.length) :
    ∃ seq cnt, rep = headerRep seq cnt (rep.drop kHeader) := by
  refine ⟨(decodeFixed (rep.take 8)).toUInt64, (decodeFixed ((rep.drop 8).take 4)).toUInt32, ?_⟩
  have h8 : (rep.take 8).length = 8 := by simp [kHeader] at h ⊢; omega
  have h4 : ((rep.drop 8).take 4).length = 4 := by simp [kHeader] at h ⊢; omega
  have e8 : encodeFixed64 (decodeFixed (rep.take 8)).toUInt64 = rep.take 8 := by
    have hlt := decodeFixed_lt (rep.take 8)
    have he := encodeFixed_decodeFixed (rep.take 8)
    rw [h8] at hlt he
    rw [encodeFixed64, toNat_toUInt64, Nat.mod_eq_of_lt (lt_of_lt_of_eq hlt (by norm_num)), he]
  have e4 : encodeFixed32 (decodeFixed ((rep.drop 8).take 4)).toUInt32 = (rep.drop 8).take 4 := by
    have hlt := decodeFixed_lt ((rep.drop 8).take 4)
    have he := encodeFixed_decodeFixed ((rep.drop 8).take 4)
    rw [h4] at hlt he
    rw [encodeFixed32, toNat_toUInt32, Nat.mod_eq_of_lt (lt_of_lt_of_eq hlt (by norm_num)), he]
  have hd : rep.drop kHeader = (rep.drop 8).drop 4 := by rw [List.drop_drop]; rfl
  rw [headerRep, e8, e4, hd, List.append_assoc, List.take_append_drop, List.take_append_drop]

namespace WriteBatch

variable (b : WriteBatch) (seq : UInt64) (cnt : UInt32) (payload : Bytes)

@[simp] theorem count_headerRep (h : b.rep = headerRep seq cnt payload) :
    b.count = toInt32 cnt := by
  rw [count, h, headerRep, List.append_assoc,
    List.drop_left' (length_encodeFixed64 seq), decodeFixed32_encodeFixed32]

@[simp] theorem sequence_headerRep (h : b.rep = headerRep seq cnt payload) :
    b.sequence = seq := by
  rw [sequence, h, headerRep, List.append_assoc, decodeFixed64_encodeFixed64]

@[simp] theorem setCount_savePoints (n : Int) : (b.setCount n).savePoints = b.savePoints := rfl
@[simp] theorem setCount_walTermPoint (n : Int) : (b.setCount n).walTermPoint = b.walTermPoint :=
  rfl
@[simp] theorem setCount_contentFlags (n : Int) : (b.setCount n).contentFlags = b.contentFlags :=
  rfl
@[simp] theorem setCount_maxBytes (n : Int) : (b.setCount n).maxBytes = b.maxBytes := rfl

theorem setCount_rep (h : b.rep = headerRep seq cnt payload) (n : Int) :
    (b.setCount n).rep = headerRep seq (ofInt32 n) payload := by
  have ht : (headerRep seq cnt payload).take 8 = encodeFixed64 seq := by
    rw [headerRep, List.append_assoc, List.take_left' (length_encodeFixed64 seq)]
  show b.rep.take 8 ++ encodeFixed32 (ofInt32 n) ++ b.rep.drop kHeader = _
  rw [h, ht, drop_kHeader_headerRep, headerRep]

@[simp] theorem sequence_setSequence (s : UInt64) : (b.setSequence s).sequence = s := by
  rw [sequence, setSequence, decodeFixed64_encodeFixed64]

@[simp] theorem setSequence_drop_eight (s : UInt64) : (b.setSequence s).rep.drop 8 = b.rep.drop 8 := by
  simp [setSequence, List.drop_left' (length_encodeFixed64 s)]

theorem setSequence_rep (h : b.rep = headerRep seq cnt payload) (s : UInt64) :
    (b.setSequence s).rep = headerRep s cnt payload := by
  simp [setSequence, h, headerRep, List.drop_left' (length_encodeFixed64 seq)]

end WriteBatch

end RocksBatch
