import RocksBatch.Basic.Coding

set_option autoImplicit false

/-! # Records of a write batch

After its 12-byte header a write batch is a sequence of records, each a tag byte and the
fields that tag requires (`db/write_batch.cc`, the grammar at the top of the file). This
file fixes the tags, the statuses the batch code returns, the content-flag bits, and the
decoded form of one record, `Record`: the five counted kinds carry a column-family id
(`0` for the tags without one), `LogData` a blob, the three 2PC markers with an argument
an xid.

`Record.encode` is what the append functions write for a record and
`readRecordFromWriteBatch` is `ReadRecordFromWriteBatch`. The main fact of the file,
`readRecordFromWriteBatch_encode`, is that the reader given an encoded record returns that
record and exactly the bytes after it, as long as every field is shorter than `2^32` bytes
(a longer one would not fit its varint32 length).
-/

namespace RocksBatch

/-! ## Statuses -/

/-- The `Status` values the batch code produces. `batchTooLarge` is the failure of an
append that would exceed `max_bytes` (§7 of the spec; the local save-point that returns it
is not among the sources). -/
inductive Status
  | ok
  | notFound (msg : String)
  | corruption (msg : String)
  | notSupported (msg : String)
  | invalidArgument (msg : String)
  | batchTooLarge
  deriving DecidableEq, Repr

/-! ## Tags -/

/-- The `ValueType` tags a write batch uses. -/
inductive ValueType
  | kTypeDeletion
  | kTypeValue
  | kTypeMerge
  | kTypeLogData
  | kTypeColumnFamilyDeletion
  | kTypeColumnFamilyValue
  | kTypeColumnFamilyMerge
  | kTypeSingleDeletion
  | kTypeColumnFamilySingleDeletion
  | kTypeBeginPrepareXID
  | kTypeEndPrepareXID
  | kTypeCommitXID
  | kTypeRollbackXID
  | kTypeNoop
  | kTypeColumnFamilyRangeDeletion
  | kTypeRangeDeletion
  deriving DecidableEq, Repr

/-- Modelled from the spec: the tag catalog of §3.1. The byte values are those of
`db/dbformat.h`, which is not among the sources (`kTypeValue = 0x1`, `kTypeDeletion = 0x0`
as in scenarios S1 and S3); the decoder only relies on their being distinct. -/
def ValueType.toByte : ValueType → UInt8
  | .kTypeDeletion => 0x0
  | .kTypeValue => 0x1
  | .kTypeMerge => 0x2
  | .kTypeLogData => 0x3
  | .kTypeColumnFamilyDeletion => 0x4
  | .kTypeColumnFamilyValue => 0x5
  | .kTypeColumnFamilyMerge => 0x6
  | .kTypeSingleDeletion => 0x7
  | .kTypeColumnFamilySingleDeletion => 0x8
  | .kTypeBeginPrepareXID => 0x9
  | .kTypeEndPrepareXID => 0xA
  | .kTypeCommitXID => 0xB
  | .kTypeRollbackXID => 0xC
  | .kTypeNoop => 0xD
  | .kTypeColumnFamilyRangeDeletion => 0xE
  | .kTypeRangeDeletion => 0xF

/-- The tag a byte stands for; `none` for a byte outside the catalog (the `default:` of the
decoder's `switch`). -/
def ValueType.ofByte (b : UInt8) : Option ValueType :=
  [ValueType.kTypeDeletion, .kTypeValue, .kTypeMerge, .kTypeLogData,
    .kTypeColumnFamilyDeletion, .kTypeColumnFamilyValue, .kTypeColumnFamilyMerge,
    .kTypeSingleDeletion, .kTypeColumnFamilySingleDeletion, .kTypeBeginPrepareXID,
    .kTypeEndPrepareXID, .kTypeCommitXID, .kTypeRollbackXID, .kTypeNoop,
    .kTypeColumnFamilyRangeDeletion, .kTypeRangeDeletion].find? (·.toByte == b)

@[simp] theorem ValueType.ofByte_toByte (t : ValueType) : ValueType.ofByte t.toByte = some t := by
  cases t <;> rfl

/-! ## Content flags

`ContentFlags` of `write_batch.cc`: one bit per kind of record, and `DEFERRED` for a batch
whose contents have not been classified yet. A flag word is a `uint32_t`; only the low ten
bits are ever set, so it is kept as a `Nat`. -/

namespace ContentFlags

def deferred : Nat := 1 <<< 0
def hasPut : Nat := 1 <<< 1
def hasDelete : Nat := 1 <<< 2
def hasSingleDelete : Nat := 1 <<< 3
def hasMerge : Nat := 1 <<< 4
def hasBeginPrepare : Nat := 1 <<< 5
def hasEndPrepare : Nat := 1 <<< 6
def hasCommit : Nat := 1 <<< 7
def hasRollback : Nat := 1 <<< 8
def hasDeleteRange : Nat := 1 <<< 9

/-- The flags the nine `Has*` queries test, one per kind of record. -/
def kinds : List Nat :=
  [hasPut, hasDelete, hasSingleDelete, hasDeleteRange, hasMerge, hasBeginPrepare, hasEndPrepare,
    hasCommit, hasRollback]

end ContentFlags

/-! ## Decoded records -/

/-- One record of a batch as `ReadRecordFromWriteBatch` decodes it. -/
inductive Record
  | put (cf : UInt32) (key value : Bytes)
  | delete (cf : UInt32) (key : Bytes)
  | singleDelete (cf : UInt32) (key : Bytes)
  | deleteRange (cf : UInt32) (beginKey endKey : Bytes)
  | merge (cf : UInt32) (key value : Bytes)
  | logData (blob : Bytes)
  | noop
  | beginPrepare
  | endPrepare (xid : Bytes)
  | commit (xid : Bytes)
  | rollback (xid : Bytes)
  deriving DecidableEq, Repr

namespace Record

/-- The byte fields of a record, in the order they are written. -/
def fields : Record → List Bytes
  | put _ k v | deleteRange _ k v | merge _ k v => [k, v]
  | delete _ k | singleDelete _ k => [k]
  | logData b | endPrepare b | commit b | rollback b => [b]
  | noop | beginPrepare => []

/-- Every field fits its varint32 length prefix. -/
def Small (r : Record) : Prop := ∀ f ∈ r.fields, f.length < 2 ^ 32

instance (r : Record) : Decidable r.Small :=
  inferInstanceAs (Decidable (∀ f ∈ r.fields, f.length < 2 ^ 32))

/-- The records `WriteBatch::Iterate` counts toward the header count. -/
def IsCounted : Record → Bool
  | put .. | delete .. | singleDelete .. | deleteRange .. | merge .. => true
  | _ => false

/-- The column family `Iterate` passes with the record: `0`, its default, for the records
without one. -/
def cf : Record → UInt32
  | put cf .. | delete cf _ | singleDelete cf _ | deleteRange cf .. | merge cf .. => cf
  | logData _ | noop | beginPrepare | endPrepare _ | commit _ | rollback _ => 0

/-- The content flag `BatchContentClassifier` raises for the record. -/
def flag : Record → Nat
  | put .. => ContentFlags.hasPut
  | delete .. => ContentFlags.hasDelete
  | singleDelete .. => ContentFlags.hasSingleDelete
  | deleteRange .. => ContentFlags.hasDeleteRange
  | merge .. => ContentFlags.hasMerge
  | beginPrepare => ContentFlags.hasBeginPrepare
  | endPrepare _ => ContentFlags.hasEndPrepare
  | commit _ => ContentFlags.hasCommit
  | rollback _ => ContentFlags.hasRollback
  | logData _ | noop => 0

theorem flag_mem (r : Record) : r.flag ∈ 0 :: ContentFlags.kinds := by
  cases r <;> simp [flag, ContentFlags.kinds]

/-- The flag of a record meets a kind's flag only when the record is of that kind. -/
theorem flag_and_kind (r : Record) {flag : Nat} (hk : flag ∈ ContentFlags.kinds) :
    r.flag &&& flag = if r.flag = flag then flag else 0 :=
  (by decide : ∀ a ∈ 0 :: ContentFlags.kinds, ∀ f ∈ ContentFlags.kinds,
    a &&& f = if a = f then f else 0) _ r.flag_mem _ hk

/-- The tag of a counted record: the plain tag for the default column family `0`, the
column-family tag otherwise. -/
def cfTag (tag cfTag : ValueType) (cf : UInt32) : ValueType := if cf = 0 then tag else cfTag

/-- The column-family id after a column-family tag; nothing for the plain tag. -/
def cfBytes (cf : UInt32) : Bytes := if cf = 0 then [] else encodeVarint32 cf

/-- The tag byte the append functions write for a record. -/
def tag : Record → ValueType
  | put cf .. => cfTag .kTypeValue .kTypeColumnFamilyValue cf
  | delete cf _ => cfTag .kTypeDeletion .kTypeColumnFamilyDeletion cf
  | singleDelete cf _ => cfTag .kTypeSingleDeletion .kTypeColumnFamilySingleDeletion cf
  | deleteRange cf .. => cfTag .kTypeRangeDeletion .kTypeColumnFamilyRangeDeletion cf
  | merge cf .. => cfTag .kTypeMerge .kTypeColumnFamilyMerge cf
  | logData _ => .kTypeLogData
  | noop => .kTypeNoop
  | beginPrepare => .kTypeBeginPrepareXID
  | endPrepare _ => .kTypeEndPrepareXID
  | commit _ => .kTypeCommitXID
  | rollback _ => .kTypeRollbackXID

/-- What follows the tag byte: the column-family id of a counted record on a family other
than `0`, then every field with its length. -/
def body : Record → Bytes
  | put cf k v | deleteRange cf k v | merge cf k v =>
      cfBytes cf ++ lengthPrefixed k ++ lengthPrefixed v
  | delete cf k | singleDelete cf k => cfBytes cf ++ lengthPrefixed k
  | logData b | endPrepare b | commit b | rollback b => lengthPrefixed b
  | noop | beginPrepare => []

/-- The bytes of a record in a batch. -/
def encode (r : Record) : Bytes := r.tag.toByte :: r.body

end Record

/-- The bytes of a sequence of records. -/
def encodeRecords (rs : List Record) : Bytes := (rs.map Record.encode).flatten

@[simp] theorem encodeRecords_nil : encodeRecords [] = [] := rfl

@[simp] theorem encodeRecords_cons (r : Record) (rs : List Record) :
    encodeRecords (r :: rs) = r.encode ++ encodeRecords rs := rfl

theorem encodeRecords_append (rs ss : List Record) :
    encodeRecords (rs ++ ss) = encodeRecords rs ++ encodeRecords ss := by
  simp [encodeRecords]

/-! ## The decoder -/

/-- The corruption `msg` when a reader finds nothing. -/
def orCorruption {α : Type} (msg : String) : Option α → Except Status α
  | some a => .ok a
  | none => .error (.corruption msg)

theorem except_bind_eq_ok {ε α β : Type} {x : Except ε α} {f : α → Except ε β} {b : β} :
    x >>= f = .ok b ↔ ∃ a, x = .ok a ∧ f a = .ok b := by
  cases x <;> simp [bind, Except.bind]

@[simp] theorem orCorruption_eq_ok {α : Type} {msg : String} {o : Option α} {a : α} :
    orCorruption msg o = .ok a ↔ o = some a := by
  cases o <;> simp [orCorruption]

/-- The column-family id of a counted record: a varint32 after a column-family tag, `0`
(the default family) after a plain one. -/
def readColumnFamily (msg : String) (cfRecord : Bool) (input : Bytes) :
    Except Status (UInt32 × Bytes) :=
  if cfRecord then orCorruption msg (getVarint32 input) else .ok (0, input)

/-- A counted record with one field (`kTypeDeletion`, `kTypeSingleDeletion` and their
column-family tags, which fall through into them). -/
def readKeyRecord (msg : String) (mk : UInt32 → Bytes → Record) (cfRecord : Bool)
    (input : Bytes) : Except Status (Record × Bytes) := do
  let (cf, input) ← readColumnFamily msg cfRecord input
  let (key, input) ← orCorruption msg (getLengthPrefixedSlice input)
  return (mk cf key, input)

/-- A counted record with two fields (key and value; begin and end key for a range
deletion). -/
def readKeyValueRecord (msg : String) (mk : UInt32 → Bytes → Bytes → Record) (cfRecord : Bool)
    (input : Bytes) : Except Status (Record × Bytes) := do
  let (cf, input) ← readColumnFamily msg cfRecord input
  let (key, input) ← orCorruption msg (getLengthPrefixedSlice input)
  let (value, input) ← orCorruption msg (getLengthPrefixedSlice input)
  return (mk cf key value, input)

/-- A record with one length-prefixed field and no column family. -/
def readBlobRecord (msg : String) (mk : Bytes → Record) (input : Bytes) :
    Except Status (Record × Bytes) := do
  let (blob, input) ← orCorruption msg (getLengthPrefixedSlice input)
  return (mk blob, input)

/-- `ReadRecordFromWriteBatch`: decode the record whose tag byte is `tag` from `input`, the
bytes after the tag; returns the record and the input after it. -/
def readRecordFromWriteBatch (tag : UInt8) (input : Bytes) : Except Status (Record × Bytes) :=
  match ValueType.ofByte tag with
  | some .kTypeColumnFamilyValue => readKeyValueRecord "bad WriteBatch Put" .put true input
  | some .kTypeValue => readKeyValueRecord "bad WriteBatch Put" .put false input
  | some .kTypeColumnFamilyDeletion => readKeyRecord "bad WriteBatch Delete" .delete true input
  | some .kTypeColumnFamilySingleDeletion =>
      readKeyRecord "bad WriteBatch Delete" .singleDelete true input
  | some .kTypeDeletion => readKeyRecord "bad WriteBatch Delete" .delete false input
  | some .kTypeSingleDeletion => readKeyRecord "bad WriteBatch Delete" .singleDelete false input
  | some .kTypeColumnFamilyRangeDeletion =>
      readKeyValueRecord "bad WriteBatch DeleteRange" .deleteRange true input
  | some .kTypeRangeDeletion =>
      readKeyValueRecord "bad WriteBatch DeleteRange" .deleteRange false input
  | some .kTypeColumnFamilyMerge => readKeyValueRecord "bad WriteBatch Merge" .merge true input
  | some .kTypeMerge => readKeyValueRecord "bad WriteBatch Merge" .merge false input
  | some .kTypeLogData => readBlobRecord "bad WriteBatch Blob" .logData input
  | some .kTypeNoop => .ok (.noop, input)
  | some .kTypeBeginPrepareXID => .ok (.beginPrepare, input)
  | some .kTypeEndPrepareXID => readBlobRecord "bad EndPrepare XID" .endPrepare input
  | some .kTypeCommitXID => readBlobRecord "bad Commit XID" .commit input
  | some .kTypeRollbackXID => readBlobRecord "bad Rollback XID" .rollback input
  | none => .error (.corruption "unknown WriteBatch tag")

/-- The fields of a counted record after its column-family id. -/
theorem readKeyRecord_encode (msg : String) (mk : UInt32 → Bytes → Record) (cf : UInt32)
    (k rest : Bytes) (hk : k.length < 2 ^ 32) :
    readKeyRecord msg mk (cf ≠ 0) (Record.cfBytes cf ++ lengthPrefixed k ++ rest) =
      .ok (mk cf k, rest) := by
  by_cases h : cf = 0 <;>
  simp [readKeyRecord, readColumnFamily, Record.cfBytes, h, orCorruption,
    getLengthPrefixedSlice_lengthPrefixed _ _ hk, bind, Except.bind, pure, Except.pure]

theorem readKeyValueRecord_encode (msg : String) (mk : UInt32 → Bytes → Bytes → Record)
    (cf : UInt32) (k v rest : Bytes) (hk : k.length < 2 ^ 32) (hv : v.length < 2 ^ 32) :
    readKeyValueRecord msg mk (cf ≠ 0)
      (Record.cfBytes cf ++ lengthPrefixed k ++ lengthPrefixed v ++ rest) =
      .ok (mk cf k v, rest) := by
  by_cases h : cf = 0 <;>
  simp [readKeyValueRecord, readColumnFamily, Record.cfBytes, h, orCorruption,
    getLengthPrefixedSlice_lengthPrefixed _ _ hk, getLengthPrefixedSlice_lengthPrefixed _ _ hv,
    bind, Except.bind, pure, Except.pure]

theorem readBlobRecord_encode (msg : String) (mk : Bytes → Record) (b rest : Bytes)
    (hb : b.length < 2 ^ 32) :
    readBlobRecord msg mk (lengthPrefixed b ++ rest) = .ok (mk b, rest) := by
  simp [readBlobRecord, getLengthPrefixedSlice_lengthPrefixed _ _ hb, orCorruption, bind,
    Except.bind, pure, Except.pure]

/-- **The decoder inverts the encoder**: given the tag byte of a record whose fields fit
their lengths, `ReadRecordFromWriteBatch` decodes the record and leaves exactly the bytes
after it. -/
theorem readRecordFromWriteBatch_encode (r : Record) (rest : Bytes) (hr : r.Small) :
    readRecordFromWriteBatch r.tag.toByte (r.body ++ rest) = .ok (r, rest) := by
  cases r <;> simp only [Record.Small, Record.fields, List.mem_cons, List.mem_singleton,
    List.not_mem_nil, forall_eq_or_imp, forall_eq, or_false] at hr
  case put cf k v =>
    have := readKeyValueRecord_encode "bad WriteBatch Put" .put cf k v rest hr.1 hr.2
    by_cases h : cf = 0 <;> simp_all [readRecordFromWriteBatch, Record.tag, Record.body, Record.cfTag]
  case delete cf k =>
    have := readKeyRecord_encode "bad WriteBatch Delete" .delete cf k rest hr
    by_cases h : cf = 0 <;> simp_all [readRecordFromWriteBatch, Record.tag, Record.body, Record.cfTag]
  case singleDelete cf k =>
    have := readKeyRecord_encode "bad WriteBatch Delete" .singleDelete cf k rest hr
    by_cases h : cf = 0 <;> simp_all [readRecordFromWriteBatch, Record.tag, Record.body, Record.cfTag]
  case deleteRange cf k v =>
    have := readKeyValueRecord_encode "bad WriteBatch DeleteRange" .deleteRange cf k v rest hr.1 hr.2
    by_cases h : cf = 0 <;> simp_all [readRecordFromWriteBatch, Record.tag, Record.body, Record.cfTag]
  case merge cf k v =>
    have := readKeyValueRecord_encode "bad WriteBatch Merge" .merge cf k v rest hr.1 hr.2
    by_cases h : cf = 0 <;> simp_all [readRecordFromWriteBatch, Record.tag, Record.body, Record.cfTag]
  case logData b => exact readBlobRecord_encode _ _ b rest hr
  case noop => rfl
  case beginPrepare => rfl
  case endPrepare b => exact readBlobRecord_encode _ _ b rest hr
  case commit b => exact readBlobRecord_encode _ _ b rest hr
  case rollback b => exact readBlobRecord_encode _ _ b rest hr

theorem readColumnFamily_length_le {msg : String} {c : Bool} {input rest : Bytes} {cf : UInt32}
    (h : readColumnFamily msg c input = .ok (cf, rest)) : rest.length ≤ input.length := by
  unfold readColumnFamily at h
  split at h
  · exact (getVarint32_length_lt (orCorruption_eq_ok.mp h)).le
  · cases h; exact le_rfl

theorem readKeyRecord_length_lt {msg : String} {mk : UInt32 → Bytes → Record} {c : Bool}
    {input rest : Bytes} {r : Record} (h : readKeyRecord msg mk c input = .ok (r, rest)) :
    rest.length < input.length := by
  simp only [readKeyRecord, except_bind_eq_ok, orCorruption_eq_ok] at h
  obtain ⟨⟨cf, i1⟩, h1, ⟨k, i2⟩, h2, h3⟩ := h
  cases h3
  exact lt_of_lt_of_le (getLengthPrefixedSlice_length_lt h2) (readColumnFamily_length_le h1)

theorem readKeyValueRecord_length_lt {msg : String} {mk : UInt32 → Bytes → Bytes → Record}
    {c : Bool} {input rest : Bytes} {r : Record}
    (h : readKeyValueRecord msg mk c input = .ok (r, rest)) : rest.length < input.length := by
  simp only [readKeyValueRecord, except_bind_eq_ok, orCorruption_eq_ok] at h
  obtain ⟨⟨cf, i1⟩, h1, ⟨k, i2⟩, h2, ⟨v, i3⟩, h3, h4⟩ := h
  cases h4
  dsimp only at h2 h3 ⊢
  have := getLengthPrefixedSlice_length_lt h2
  have := getLengthPrefixedSlice_length_lt h3
  have := readColumnFamily_length_le h1
  omega

theorem readBlobRecord_length_lt {msg : String} {mk : Bytes → Record} {input rest : Bytes}
    {r : Record} (h : readBlobRecord msg mk input = .ok (r, rest)) :
    rest.length < input.length := by
  simp only [readBlobRecord, except_bind_eq_ok, orCorruption_eq_ok] at h
  obtain ⟨⟨b, i1⟩, h1, h2⟩ := h
  cases h2
  exact getLengthPrefixedSlice_length_lt h1

/-- The decoder never reads past its input, so the loop of `WriteBatch::Iterate`, which
also drops the tag byte, always makes progress. -/
theorem readRecordFromWriteBatch_length_le {tag : UInt8} {input rest : Bytes} {r : Record}
    (h : readRecordFromWriteBatch tag input = .ok (r, rest)) : rest.length ≤ input.length := by
  unfold readRecordFromWriteBatch at h
  rcases ht : ValueType.ofByte tag with _ | t
  · simp [ht] at h
  rw [ht] at h
  cases t <;> first
    | with_reducible exact (readKeyRecord_length_lt h).le
    | with_reducible exact (readKeyValueRecord_length_lt h).le
    | with_reducible exact (readBlobRecord_length_lt h).le
    | (cases h; exact le_rfl)

theorem readColumnFamily_append {msg : String} {c : Bool} {input rest : Bytes} {cf : UInt32}
    (h : readColumnFamily msg c input = .ok (cf, rest)) (q : Bytes) :
    readColumnFamily msg c (input ++ q) = .ok (cf, rest ++ q) := by
  cases c <;> simp only [readColumnFamily, orCorruption_eq_ok, Bool.false_eq_true, if_false,
    if_true] at h ⊢
  · cases h; rfl
  · exact getVarint32_append h q

theorem readKeyRecord_append {msg : String} {mk : UInt32 → Bytes → Record} {c : Bool}
    {input rest : Bytes} {r : Record} (h : readKeyRecord msg mk c input = .ok (r, rest))
    (q : Bytes) : readKeyRecord msg mk c (input ++ q) = .ok (r, rest ++ q) := by
  simp only [readKeyRecord, except_bind_eq_ok, orCorruption_eq_ok] at h ⊢
  obtain ⟨⟨cf, i1⟩, h1, ⟨k, i2⟩, h2, h3⟩ := h
  cases h3
  exact ⟨_, readColumnFamily_append h1 q, _, getLengthPrefixedSlice_append h2 q, rfl⟩

theorem readKeyValueRecord_append {msg : String} {mk : UInt32 → Bytes → Bytes → Record}
    {c : Bool} {input rest : Bytes} {r : Record}
    (h : readKeyValueRecord msg mk c input = .ok (r, rest)) (q : Bytes) :
    readKeyValueRecord msg mk c (input ++ q) = .ok (r, rest ++ q) := by
  simp only [readKeyValueRecord, except_bind_eq_ok, orCorruption_eq_ok] at h ⊢
  obtain ⟨⟨cf, i1⟩, h1, ⟨k, i2⟩, h2, ⟨v, i3⟩, h3, h4⟩ := h
  cases h4
  exact ⟨_, readColumnFamily_append h1 q, _, getLengthPrefixedSlice_append h2 q, _,
    getLengthPrefixedSlice_append h3 q, rfl⟩

theorem readBlobRecord_append {msg : String} {mk : Bytes → Record} {input rest : Bytes}
    {r : Record} (h : readBlobRecord msg mk input = .ok (r, rest)) (q : Bytes) :
    readBlobRecord msg mk (input ++ q) = .ok (r, rest ++ q) := by
  simp only [readBlobRecord, except_bind_eq_ok, orCorruption_eq_ok] at h ⊢
  obtain ⟨⟨b, i1⟩, h1, h2⟩ := h
  cases h2
  exact ⟨_, getLengthPrefixedSlice_append h1 q, rfl⟩

/-- The decoder reads a record from its own bytes only. -/
theorem readRecordFromWriteBatch_append {tag : UInt8} {input rest : Bytes} {r : Record}
    (h : readRecordFromWriteBatch tag input = .ok (r, rest)) (q : Bytes) :
    readRecordFromWriteBatch tag (input ++ q) = .ok (r, rest ++ q) := by
  unfold readRecordFromWriteBatch at h ⊢
  rcases ht : ValueType.ofByte tag with _ | t
  · simp [ht] at h
  cases t <;> simp only [ht] at h ⊢ <;> first
    | with_reducible exact readKeyRecord_append h q
    | with_reducible exact readKeyValueRecord_append h q
    | with_reducible exact readBlobRecord_append h q
    | (cases h; rfl)

theorem readKeyRecord_small {msg : String} {mk : UInt32 → Bytes → Record} {c : Bool}
    {input rest : Bytes} {r : Record} (h : readKeyRecord msg mk c input = .ok (r, rest))
    (hmk : ∀ cf k, (mk cf k).fields = [k]) : r.Small := by
  simp only [readKeyRecord, except_bind_eq_ok, orCorruption_eq_ok] at h
  obtain ⟨⟨cf, i1⟩, -, ⟨k, i2⟩, h2, h3⟩ := h
  cases h3
  simpa [Record.Small, hmk] using getLengthPrefixedSlice_small h2

theorem readKeyValueRecord_small {msg : String} {mk : UInt32 → Bytes → Bytes → Record}
    {c : Bool} {input rest : Bytes} {r : Record}
    (h : readKeyValueRecord msg mk c input = .ok (r, rest))
    (hmk : ∀ cf k v, (mk cf k v).fields = [k, v]) : r.Small := by
  simp only [readKeyValueRecord, except_bind_eq_ok, orCorruption_eq_ok] at h
  obtain ⟨⟨cf, i1⟩, -, ⟨k, i2⟩, h2, ⟨v, i3⟩, h3, h4⟩ := h
  cases h4
  simpa [Record.Small, hmk] using ⟨getLengthPrefixedSlice_small h2, getLengthPrefixedSlice_small h3⟩

theorem readBlobRecord_small {msg : String} {mk : Bytes → Record} {input rest : Bytes}
    {r : Record} (h : readBlobRecord msg mk input = .ok (r, rest))
    (hmk : ∀ b, (mk b).fields = [b]) : r.Small := by
  simp only [readBlobRecord, except_bind_eq_ok, orCorruption_eq_ok] at h
  obtain ⟨⟨b, i1⟩, h1, h2⟩ := h
  cases h2
  simpa [Record.Small, hmk] using getLengthPrefixedSlice_small h1

/-- Every field the decoder reads fits its varint32 length prefix. -/
theorem readRecordFromWriteBatch_small {tag : UInt8} {input rest : Bytes} {r : Record}
    (h : readRecordFromWriteBatch tag input = .ok (r, rest)) : r.Small := by
  unfold readRecordFromWriteBatch at h
  rcases ht : ValueType.ofByte tag with _ | t
  · simp [ht] at h
  rw [ht] at h
  cases t <;> first
    | ((with_reducible refine readKeyRecord_small h ?_); exact fun _ _ => rfl)
    | ((with_reducible refine readKeyValueRecord_small h ?_); exact fun _ _ _ => rfl)
    | ((with_reducible refine readBlobRecord_small h ?_); exact fun _ => rfl)
    | (cases h; simp [Record.Small, Record.fields])

/-- The decoder fails with a corruption only, never with an OK status. -/
theorem orCorruption_ne_error_ok {α : Type} (msg : String) (o : Option α) :
    orCorruption msg o ≠ .error .ok := by
  cases o <;> simp [orCorruption]

theorem bind_ne_error_ok {α β : Type} {x : Except Status α} {f : α → Except Status β}
    (hx : x ≠ .error .ok) (hf : ∀ a, f a ≠ .error .ok) : x >>= f ≠ .error .ok := by
  cases x <;> simp_all [bind, Except.bind]

theorem readColumnFamily_ne_error_ok (msg : String) (c : Bool) (input : Bytes) :
    readColumnFamily msg c input ≠ .error .ok := by
  cases c <;> simp [readColumnFamily, orCorruption_ne_error_ok]

theorem readKeyRecord_ne_error_ok (msg : String) (mk : UInt32 → Bytes → Record) (c : Bool)
    (input : Bytes) : readKeyRecord msg mk c input ≠ .error .ok :=
  bind_ne_error_ok (readColumnFamily_ne_error_ok _ _ _) fun _ =>
    bind_ne_error_ok (orCorruption_ne_error_ok _ _) fun _ => by simp [pure, Except.pure]

theorem readKeyValueRecord_ne_error_ok (msg : String) (mk : UInt32 → Bytes → Bytes → Record)
    (c : Bool) (input : Bytes) : readKeyValueRecord msg mk c input ≠ .error .ok :=
  bind_ne_error_ok (readColumnFamily_ne_error_ok _ _ _) fun _ =>
    bind_ne_error_ok (orCorruption_ne_error_ok _ _) fun _ =>
      bind_ne_error_ok (orCorruption_ne_error_ok _ _) fun _ => by simp [pure, Except.pure]

theorem readBlobRecord_ne_error_ok (msg : String) (mk : Bytes → Record) (input : Bytes) :
    readBlobRecord msg mk input ≠ .error .ok :=
  bind_ne_error_ok (orCorruption_ne_error_ok _ _) fun _ => by simp [pure, Except.pure]

theorem readRecordFromWriteBatch_ne_error_ok (tag : UInt8) (input : Bytes) :
    readRecordFromWriteBatch tag input ≠ .error .ok := by
  unfold readRecordFromWriteBatch
  split <;> first
    | with_reducible exact readKeyRecord_ne_error_ok _ _ _ _
    | with_reducible exact readKeyValueRecord_ne_error_ok _ _ _ _
    | with_reducible exact readBlobRecord_ne_error_ok _ _ _
    | (intro h; cases h)

/-! ## Payloads that read as records -/

/-- `Parses p rs`: the decoder reads the payload `p`, record after record, as `rs`. -/
inductive Parses : Bytes → List Record → Prop
  | nil : Parses [] []
  | cons {tag : UInt8} {tail rest : Bytes} {r : Record} {rs : List Record} :
      readRecordFromWriteBatch tag tail = .ok (r, rest) → Parses rest rs →
      Parses (tag :: tail) (r :: rs)

theorem Parses.append {p q : Bytes} {rs ss : List Record} (hp : Parses p rs)
    (hq : Parses q ss) : Parses (p ++ q) (rs ++ ss) := by
  induction hp with
  | nil => exact hq
  | cons hr _ ih => exact .cons (readRecordFromWriteBatch_append hr q) ih

theorem parses_encodeRecords {rs : List Record} (hs : ∀ r ∈ rs, r.Small) :
    Parses (encodeRecords rs) rs := by
  induction rs with
  | nil => exact .nil
  | cons r rs ih =>
      exact .cons (readRecordFromWriteBatch_encode r _ (hs r (by simp)))
        (ih fun r' h => hs r' (by simp [h]))

theorem Parses.eq_nil {rs : List Record} (h : Parses [] rs) : rs = [] := by
  cases h; rfl

theorem Parses.small {p : Bytes} {rs : List Record} (h : Parses p rs) : ∀ r ∈ rs, r.Small := by
  induction h with
  | nil => simp
  | cons hr _ ih =>
      simp only [List.mem_cons]
      rintro r (rfl | hr')
      exacts [readRecordFromWriteBatch_small hr, ih r hr']

/-- The decoder reads a payload one way only. -/
theorem Parses.det {p : Bytes} {rs ss : List Record} (hr : Parses p rs) (hs : Parses p ss) :
    rs = ss := by
  induction hr generalizing ss with
  | nil => exact hs.eq_nil.symm
  | cons hr _ ih =>
      cases hs with
      | cons hr' hs =>
          rw [hr] at hr'
          cases hr'
          rw [ih hs]

/-- `ReadKeyFromWriteBatchEntry`: skip the tag byte, skip the column-family id when
`cf_record`, and read the key. -/
def readKeyFromWriteBatchEntry (input : Bytes) (cf_record : Bool) : Option Bytes := do
  let input := input.drop 1
  let input ← if cf_record then (getVarint32 input).map Prod.snd else some input
  (getLengthPrefixedSlice input).map Prod.fst

end RocksBatch
