import RocksBatch.Batch.Record

set_option autoImplicit false

/-! # The record format as a grammar

The comment at the top of `write_batch.cc` gives the format of a batch as a grammar: a
record is a tag byte and the fields of its tag, a `varstring` a `varint32` length and that
many bytes. This file states that grammar on its own, as relations on bytes with no reader
in them (`Varint32`, `Varstring`, `RecordLayout`, `Layout`), and proves that the decoder
accepts exactly it.

* `readRecordFromWriteBatch_eq_ok_iff`: `ReadRecordFromWriteBatch` reads a record from the
  bytes after a tag byte, leaving `rest`, exactly when they are the rest of the record's
  bytes in the grammar followed by `rest`.
* `parses_iff_layout`: a payload reads as a list of records exactly when it is their bytes,
  one record after another.

The grammar is the one the `switch` of the decoder reads. It differs from the comment in
three places: a column-family deletion or single deletion has one `varstring`, not two; the
range deletions and `LogData` are records; `BeginPrepare` has no field and `EndPrepare`
carries the xid.
-/

namespace RocksBatch

/-! ## Varints and varstrings -/

/-- The number the seven-bit digits of `bs` stand for, least significant first. -/
def base128 : Bytes → Nat
  | [] => 0
  | b :: bs => b.toNat % 128 + 128 * base128 bs

/-- `Varint32 bs v`: the bytes `bs` are a `varint32` of value `v` (§4.1 of the spec): one to
five bytes, the high bit set on every one but the last, seven-bit digits least significant
first, and the value kept modulo `2^32`, as a `uint32_t`. The digits need not be the
fewest. -/
def Varint32 (bs : Bytes) (v : Nat) : Prop :=
  ∃ pre last, bs = pre ++ [last] ∧ pre.length < 5 ∧ (∀ b ∈ pre, 128 ≤ b.toNat) ∧
    last.toNat < 128 ∧ v = base128 bs % 2 ^ 32

/-- `varstring := len: varint32, data: uint8[len]`. -/
def Varstring (bs s : Bytes) : Prop := ∃ pre, bs = pre ++ s ∧ Varint32 pre s.length

/-- What stands between a tag and the fields of a counted record: a `varint32` column
family after a column-family tag, nothing after a plain tag, whose records are on the
default column family `0`. -/
def ColumnFamilyField : Bool → Bytes → UInt32 → Prop
  | true, bs, cf => Varint32 bs cf.toNat
  | false, bs, cf => bs = [] ∧ cf = 0

/-! ## Records and payloads -/

/-- `RecordLayout bs r`: the bytes `bs` are one record, `r`: its tag byte, the column family
as a `varint32` after a column-family tag, then its fields as varstrings. -/
inductive RecordLayout : Bytes → Record → Prop
  | value {bk bv k v : Bytes} : Varstring bk k → Varstring bv v →
      RecordLayout (ValueType.kTypeValue.toByte :: (bk ++ bv)) (.put 0 k v)
  | columnFamilyValue {bc bk bv k v : Bytes} {cf : UInt32} : Varint32 bc cf.toNat →
      Varstring bk k → Varstring bv v →
      RecordLayout (ValueType.kTypeColumnFamilyValue.toByte :: (bc ++ bk ++ bv)) (.put cf k v)
  | deletion {bk k : Bytes} : Varstring bk k →
      RecordLayout (ValueType.kTypeDeletion.toByte :: bk) (.delete 0 k)
  | columnFamilyDeletion {bc bk k : Bytes} {cf : UInt32} : Varint32 bc cf.toNat →
      Varstring bk k →
      RecordLayout (ValueType.kTypeColumnFamilyDeletion.toByte :: (bc ++ bk)) (.delete cf k)
  | singleDeletion {bk k : Bytes} : Varstring bk k →
      RecordLayout (ValueType.kTypeSingleDeletion.toByte :: bk) (.singleDelete 0 k)
  | columnFamilySingleDeletion {bc bk k : Bytes} {cf : UInt32} : Varint32 bc cf.toNat →
      Varstring bk k →
      RecordLayout (ValueType.kTypeColumnFamilySingleDeletion.toByte :: (bc ++ bk))
        (.singleDelete cf k)
  | rangeDeletion {bk be k e : Bytes} : Varstring bk k → Varstring be e →
      RecordLayout (ValueType.kTypeRangeDeletion.toByte :: (bk ++ be)) (.deleteRange 0 k e)
  | columnFamilyRangeDeletion {bc bk be k e : Bytes} {cf : UInt32} : Varint32 bc cf.toNat →
      Varstring bk k → Varstring be e →
      RecordLayout (ValueType.kTypeColumnFamilyRangeDeletion.toByte :: (bc ++ bk ++ be))
        (.deleteRange cf k e)
  | merge {bk bv k v : Bytes} : Varstring bk k → Varstring bv v →
      RecordLayout (ValueType.kTypeMerge.toByte :: (bk ++ bv)) (.merge 0 k v)
  | columnFamilyMerge {bc bk bv k v : Bytes} {cf : UInt32} : Varint32 bc cf.toNat →
      Varstring bk k → Varstring bv v →
      RecordLayout (ValueType.kTypeColumnFamilyMerge.toByte :: (bc ++ bk ++ bv)) (.merge cf k v)
  | logData {bb b : Bytes} : Varstring bb b →
      RecordLayout (ValueType.kTypeLogData.toByte :: bb) (.logData b)
  | noop : RecordLayout [ValueType.kTypeNoop.toByte] .noop
  | beginPrepare : RecordLayout [ValueType.kTypeBeginPrepareXID.toByte] .beginPrepare
  | endPrepare {bx x : Bytes} : Varstring bx x →
      RecordLayout (ValueType.kTypeEndPrepareXID.toByte :: bx) (.endPrepare x)
  | commit {bx x : Bytes} : Varstring bx x →
      RecordLayout (ValueType.kTypeCommitXID.toByte :: bx) (.commit x)
  | rollback {bx x : Bytes} : Varstring bx x →
      RecordLayout (ValueType.kTypeRollbackXID.toByte :: bx) (.rollback x)

/-- `Layout p rs`: the payload `p` is the bytes of the records `rs`, one after another. -/
inductive Layout : Bytes → List Record → Prop
  | nil : Layout [] []
  | cons {bs rest : Bytes} {r : Record} {rs : List Record} :
      RecordLayout bs r → Layout rest rs → Layout (bs ++ rest) (r :: rs)

/-- A varstring holds fewer than `2^32` bytes: its length is a `uint32_t`. -/
theorem Varstring.length_lt {bs s : Bytes} (h : Varstring bs s) : s.length < 2 ^ 32 := by
  obtain ⟨_, -, _, _, -, -, -, -, hv⟩ := h
  rw [hv]
  exact Nat.mod_lt _ (by norm_num)

theorem RecordLayout.exists_cons {bs : Bytes} {r : Record} (h : RecordLayout bs r) :
    ∃ tag body, bs = tag :: body := by
  cases h <;> exact ⟨_, _, rfl⟩

/-! ## The readers accept the grammar -/

/-- The reader of a varint of at most `k` bytes reads the digits up to the first byte below
`128`. -/
theorem varintValue_digits {last : UInt8} (rest : Bytes) (hlast : last.toNat < 128) :
    ∀ {pre : Bytes}, (∀ b ∈ pre, 128 ≤ b.toNat) → ∀ {k : Nat}, pre.length < k →
      varintValue k (pre ++ last :: rest) = some (base128 (pre ++ [last]), rest)
  | _, _, 0, hk => absurd hk (Nat.not_lt_zero _)
  | [], _, _ + 1, _ => by simp [varintValue, base128, hlast, Nat.mod_eq_of_lt hlast]
  | b :: pre, hpre, k + 1, hk => by
      have hb := hpre b (List.mem_cons_self _ _)
      rw [List.cons_append, varintValue, if_neg (by omega),
        varintValue_digits rest hlast (fun b h => hpre b (List.mem_cons_of_mem _ h))
          (by simpa using hk)]
      rfl

/-- What the reader of a varint reads is digits up to the first byte below `128`. -/
theorem varintValue_eq_some : ∀ {k : Nat} {input rest : Bytes} {v : Nat},
    varintValue k input = some (v, rest) →
    ∃ pre last, input = pre ++ last :: rest ∧ pre.length < k ∧ (∀ b ∈ pre, 128 ≤ b.toNat) ∧
      last.toNat < 128 ∧ v = base128 (pre ++ [last])
  | 0, _, _, _, h => by simp [varintValue] at h
  | _ + 1, [], _, _, h => by simp [varintValue] at h
  | k + 1, b :: tail, rest, v, h => by
      simp only [varintValue] at h
      split at h
      · rename_i hb
        cases h
        exact ⟨[], b, rfl, Nat.succ_pos _, by simp, hb, by simp [base128]; omega⟩
      · rename_i hb
        obtain ⟨⟨v', rest'⟩, hv, he⟩ := Option.map_eq_some'.mp h
        simp only [Prod.mk.injEq] at he
        obtain ⟨rfl, rfl⟩ := he
        obtain ⟨pre, last, rfl, hk, hpre, hlast, rfl⟩ := varintValue_eq_some hv
        exact ⟨b :: pre, last, rfl, by simpa using hk,
          List.forall_mem_cons.mpr ⟨by omega, hpre⟩, hlast, rfl⟩

theorem getVarint32_eq_some_iff {input rest : Bytes} {v : UInt32} :
    getVarint32 input = some (v, rest) ↔ ∃ bs, input = bs ++ rest ∧ Varint32 bs v.toNat := by
  constructor
  · intro h
    obtain ⟨⟨n, rest'⟩, hn, he⟩ := Option.map_eq_some'.mp h
    simp only [Prod.mk.injEq] at he
    obtain ⟨rfl, rfl⟩ := he
    obtain ⟨pre, last, rfl, hk, hpre, hlast, rfl⟩ := varintValue_eq_some hn
    exact ⟨pre ++ [last], by simp, pre, last, rfl, hk, hpre, hlast, toNat_toUInt32 _⟩
  · rintro ⟨_, rfl, pre, last, rfl, hk, hpre, hlast, hv⟩
    rw [List.append_assoc, List.singleton_append, getVarint32,
      varintValue_digits rest hlast hpre hk]
    simp only [Option.map_some', Option.some.injEq, Prod.mk.injEq, and_true]
    exact UInt32.toNat.inj (by rw [toNat_toUInt32, hv])

theorem getLengthPrefixedSlice_eq_some_iff {input s rest : Bytes} :
    getLengthPrefixedSlice input = some (s, rest) ↔ ∃ bs, input = bs ++ rest ∧ Varstring bs s := by
  constructor
  · intro h
    unfold getLengthPrefixedSlice at h
    split at h
    · rename_i len tail hget
      split at h
      · rename_i hlen
        cases h
        obtain ⟨pre, rfl, hpre⟩ := getVarint32_eq_some_iff.mp hget
        refine ⟨pre ++ tail.take len.toNat, by simp, pre, rfl, ?_⟩
        rwa [List.length_take, min_eq_left hlen]
      · cases h
    · cases h
  · rintro ⟨_, rfl, pre, rfl, hpre⟩
    have hs : s.length.toUInt32.toNat = s.length :=
      toNat_toUInt32_of_lt (Varstring.length_lt ⟨pre, rfl, hpre⟩)
    have hget : getVarint32 (pre ++ (s ++ rest)) = some (s.length.toUInt32, s ++ rest) :=
      getVarint32_eq_some_iff.mpr ⟨pre, rfl, by rwa [hs]⟩
    simp [getLengthPrefixedSlice, hget, hs]

section Readers

variable {msg : String} {c : Bool} {input rest : Bytes} {r : Record}

theorem readColumnFamily_eq_ok_iff {cf : UInt32} :
    readColumnFamily msg c input = .ok (cf, rest) ↔
      ∃ bc, input = bc ++ rest ∧ ColumnFamilyField c bc cf := by
  cases c
  · simp only [readColumnFamily, ColumnFamilyField, Bool.false_eq_true, if_false]
    constructor
    · intro h
      cases h
      exact ⟨[], rfl, rfl, rfl⟩
    · rintro ⟨_, rfl, rfl, rfl⟩
      rfl
  · simpa only [readColumnFamily, ColumnFamilyField, if_true, orCorruption_eq_ok] using
      getVarint32_eq_some_iff

theorem readKeyRecord_eq_ok_iff {mk : UInt32 → Bytes → Record} :
    readKeyRecord msg mk c input = .ok (r, rest) ↔
      ∃ bc bk cf k, input = bc ++ bk ++ rest ∧ ColumnFamilyField c bc cf ∧ Varstring bk k ∧
        r = mk cf k := by
  simp only [readKeyRecord, except_bind_eq_ok, orCorruption_eq_ok]
  constructor
  · rintro ⟨⟨cf, _⟩, h1, ⟨k, _⟩, h2, h3⟩
    obtain ⟨bc, rfl, hc⟩ := readColumnFamily_eq_ok_iff.mp h1
    obtain ⟨bk, rfl, hk⟩ := getLengthPrefixedSlice_eq_some_iff.mp h2
    cases h3
    exact ⟨bc, bk, cf, k, by simp, hc, hk, rfl⟩
  · rintro ⟨bc, bk, cf, k, rfl, hc, hk, rfl⟩
    exact ⟨(cf, bk ++ rest), readColumnFamily_eq_ok_iff.mpr ⟨bc, by simp, hc⟩, (k, rest),
      getLengthPrefixedSlice_eq_some_iff.mpr ⟨bk, rfl, hk⟩, rfl⟩

theorem readKeyValueRecord_eq_ok_iff {mk : UInt32 → Bytes → Bytes → Record} :
    readKeyValueRecord msg mk c input = .ok (r, rest) ↔
      ∃ bc bk bv cf k v, input = bc ++ bk ++ bv ++ rest ∧ ColumnFamilyField c bc cf ∧
        Varstring bk k ∧ Varstring bv v ∧ r = mk cf k v := by
  simp only [readKeyValueRecord, except_bind_eq_ok, orCorruption_eq_ok]
  constructor
  · rintro ⟨⟨cf, _⟩, h1, ⟨k, _⟩, h2, ⟨v, _⟩, h3, h4⟩
    obtain ⟨bc, rfl, hc⟩ := readColumnFamily_eq_ok_iff.mp h1
    obtain ⟨bk, rfl, hk⟩ := getLengthPrefixedSlice_eq_some_iff.mp h2
    obtain ⟨bv, rfl, hv⟩ := getLengthPrefixedSlice_eq_some_iff.mp h3
    cases h4
    exact ⟨bc, bk, bv, cf, k, v, by simp, hc, hk, hv, rfl⟩
  · rintro ⟨bc, bk, bv, cf, k, v, rfl, hc, hk, hv, rfl⟩
    exact ⟨(cf, bk ++ bv ++ rest), readColumnFamily_eq_ok_iff.mpr ⟨bc, by simp, hc⟩,
      (k, bv ++ rest), getLengthPrefixedSlice_eq_some_iff.mpr ⟨bk, by simp, hk⟩, (v, rest),
      getLengthPrefixedSlice_eq_some_iff.mpr ⟨bv, rfl, hv⟩, rfl⟩

theorem readBlobRecord_eq_ok_iff {mk : Bytes → Record} :
    readBlobRecord msg mk input = .ok (r, rest) ↔
      ∃ bb b, input = bb ++ rest ∧ Varstring bb b ∧ r = mk b := by
  simp only [readBlobRecord, except_bind_eq_ok, orCorruption_eq_ok]
  constructor
  · rintro ⟨⟨b, _⟩, h1, h2⟩
    obtain ⟨bb, rfl, hb⟩ := getLengthPrefixedSlice_eq_some_iff.mp h1
    cases h2
    exact ⟨bb, b, rfl, hb, rfl⟩
  · rintro ⟨bb, b, rfl, hb, rfl⟩
    exact ⟨(b, rest), getLengthPrefixedSlice_eq_some_iff.mpr ⟨bb, rfl, hb⟩, rfl⟩

end Readers

theorem ValueType.eq_toByte_of_ofByte {b : UInt8} {t : ValueType}
    (h : ValueType.ofByte b = some t) : b = t.toByte := by
  unfold ValueType.ofByte at h
  have h' := List.find?_some h
  rw [beq_iff_eq] at h'
  exact h'.symm

/-- **The decoder reads exactly the grammar**: `ReadRecordFromWriteBatch` reads the record `r`
from the bytes after the tag byte `tag`, leaving `rest`, exactly when they are the rest of
`r`'s bytes in the grammar, followed by `rest`. -/
theorem readRecordFromWriteBatch_eq_ok_iff {tag : UInt8} {tail rest : Bytes} {r : Record} :
    readRecordFromWriteBatch tag tail = .ok (r, rest) ↔
      ∃ body, tail = body ++ rest ∧ RecordLayout (tag :: body) r := by
  constructor
  · intro h
    unfold readRecordFromWriteBatch at h
    rcases ht : ValueType.ofByte tag with _ | t
    · rw [ht] at h
      cases h
    obtain rfl := ValueType.eq_toByte_of_ofByte ht
    rw [ht] at h
    cases t <;> dsimp only at h
    case kTypeValue =>
      obtain ⟨_, bk, bv, _, _, _, rfl, ⟨rfl, rfl⟩, hk, hv, rfl⟩ := readKeyValueRecord_eq_ok_iff.mp h
      exact ⟨bk ++ bv, by simp, .value hk hv⟩
    case kTypeColumnFamilyValue =>
      obtain ⟨bc, bk, bv, _, _, _, rfl, hc, hk, hv, rfl⟩ := readKeyValueRecord_eq_ok_iff.mp h
      exact ⟨bc ++ bk ++ bv, by simp, .columnFamilyValue hc hk hv⟩
    case kTypeDeletion =>
      obtain ⟨_, bk, _, _, rfl, ⟨rfl, rfl⟩, hk, rfl⟩ := readKeyRecord_eq_ok_iff.mp h
      exact ⟨bk, by simp, .deletion hk⟩
    case kTypeColumnFamilyDeletion =>
      obtain ⟨bc, bk, _, _, rfl, hc, hk, rfl⟩ := readKeyRecord_eq_ok_iff.mp h
      exact ⟨bc ++ bk, by simp, .columnFamilyDeletion hc hk⟩
    case kTypeSingleDeletion =>
      obtain ⟨_, bk, _, _, rfl, ⟨rfl, rfl⟩, hk, rfl⟩ := readKeyRecord_eq_ok_iff.mp h
      exact ⟨bk, by simp, .singleDeletion hk⟩
    case kTypeColumnFamilySingleDeletion =>
      obtain ⟨bc, bk, _, _, rfl, hc, hk, rfl⟩ := readKeyRecord_eq_ok_iff.mp h
      exact ⟨bc ++ bk, by simp, .columnFamilySingleDeletion hc hk⟩
    case kTypeRangeDeletion =>
      obtain ⟨_, bk, be, _, _, _, rfl, ⟨rfl, rfl⟩, hk, he, rfl⟩ := readKeyValueRecord_eq_ok_iff.mp h
      exact ⟨bk ++ be, by simp, .rangeDeletion hk he⟩
    case kTypeColumnFamilyRangeDeletion =>
      obtain ⟨bc, bk, be, _, _, _, rfl, hc, hk, he, rfl⟩ := readKeyValueRecord_eq_ok_iff.mp h
      exact ⟨bc ++ bk ++ be, by simp, .columnFamilyRangeDeletion hc hk he⟩
    case kTypeMerge =>
      obtain ⟨_, bk, bv, _, _, _, rfl, ⟨rfl, rfl⟩, hk, hv, rfl⟩ := readKeyValueRecord_eq_ok_iff.mp h
      exact ⟨bk ++ bv, by simp, .merge hk hv⟩
    case kTypeColumnFamilyMerge =>
      obtain ⟨bc, bk, bv, _, _, _, rfl, hc, hk, hv, rfl⟩ := readKeyValueRecord_eq_ok_iff.mp h
      exact ⟨bc ++ bk ++ bv, by simp, .columnFamilyMerge hc hk hv⟩
    case kTypeLogData =>
      obtain ⟨bb, _, rfl, hb, rfl⟩ := readBlobRecord_eq_ok_iff.mp h
      exact ⟨bb, rfl, .logData hb⟩
    case kTypeEndPrepareXID =>
      obtain ⟨bx, _, rfl, hx, rfl⟩ := readBlobRecord_eq_ok_iff.mp h
      exact ⟨bx, rfl, .endPrepare hx⟩
    case kTypeCommitXID =>
      obtain ⟨bx, _, rfl, hx, rfl⟩ := readBlobRecord_eq_ok_iff.mp h
      exact ⟨bx, rfl, .commit hx⟩
    case kTypeRollbackXID =>
      obtain ⟨bx, _, rfl, hx, rfl⟩ := readBlobRecord_eq_ok_iff.mp h
      exact ⟨bx, rfl, .rollback hx⟩
    case kTypeNoop =>
      cases h
      exact ⟨[], rfl, .noop⟩
    case kTypeBeginPrepareXID =>
      cases h
      exact ⟨[], rfl, .beginPrepare⟩
  · rintro ⟨body, rfl, hl⟩
    cases hl <;> rw [readRecordFromWriteBatch, ValueType.ofByte_toByte] <;> dsimp only
    case value hk hv =>
      exact readKeyValueRecord_eq_ok_iff.mpr ⟨[], _, _, 0, _, _, by simp, ⟨rfl, rfl⟩, hk, hv, rfl⟩
    case columnFamilyValue hc hk hv =>
      exact readKeyValueRecord_eq_ok_iff.mpr ⟨_, _, _, _, _, _, by simp, hc, hk, hv, rfl⟩
    case deletion hk =>
      exact readKeyRecord_eq_ok_iff.mpr ⟨[], _, 0, _, by simp, ⟨rfl, rfl⟩, hk, rfl⟩
    case columnFamilyDeletion hc hk =>
      exact readKeyRecord_eq_ok_iff.mpr ⟨_, _, _, _, by simp, hc, hk, rfl⟩
    case singleDeletion hk =>
      exact readKeyRecord_eq_ok_iff.mpr ⟨[], _, 0, _, by simp, ⟨rfl, rfl⟩, hk, rfl⟩
    case columnFamilySingleDeletion hc hk =>
      exact readKeyRecord_eq_ok_iff.mpr ⟨_, _, _, _, by simp, hc, hk, rfl⟩
    case rangeDeletion hk he =>
      exact readKeyValueRecord_eq_ok_iff.mpr ⟨[], _, _, 0, _, _, by simp, ⟨rfl, rfl⟩, hk, he, rfl⟩
    case columnFamilyRangeDeletion hc hk he =>
      exact readKeyValueRecord_eq_ok_iff.mpr ⟨_, _, _, _, _, _, by simp, hc, hk, he, rfl⟩
    case merge hk hv =>
      exact readKeyValueRecord_eq_ok_iff.mpr ⟨[], _, _, 0, _, _, by simp, ⟨rfl, rfl⟩, hk, hv, rfl⟩
    case columnFamilyMerge hc hk hv =>
      exact readKeyValueRecord_eq_ok_iff.mpr ⟨_, _, _, _, _, _, by simp, hc, hk, hv, rfl⟩
    case logData hb => exact readBlobRecord_eq_ok_iff.mpr ⟨_, _, rfl, hb, rfl⟩
    case endPrepare hx => exact readBlobRecord_eq_ok_iff.mpr ⟨_, _, rfl, hx, rfl⟩
    case commit hx => exact readBlobRecord_eq_ok_iff.mpr ⟨_, _, rfl, hx, rfl⟩
    case rollback hx => exact readBlobRecord_eq_ok_iff.mpr ⟨_, _, rfl, hx, rfl⟩
    case noop => rfl
    case beginPrepare => rfl

/-- **A payload reads as records exactly when it is their bytes in the grammar**, one record
after another: the decoder is the format, and nothing else. -/
theorem parses_iff_layout {p : Bytes} {rs : List Record} : Parses p rs ↔ Layout p rs := by
  constructor
  · intro h
    induction h with
    | nil => exact .nil
    | cons hr _ ih =>
        obtain ⟨body, rfl, hl⟩ := readRecordFromWriteBatch_eq_ok_iff.mp hr
        exact .cons hl ih
  · intro h
    induction h with
    | nil => exact .nil
    | cons hl _ ih =>
        obtain ⟨tag, body, rfl⟩ := hl.exists_cons
        exact .cons (readRecordFromWriteBatch_eq_ok_iff.mpr ⟨body, rfl, hl⟩) ih

end RocksBatch
