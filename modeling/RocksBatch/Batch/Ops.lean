import RocksBatch.Batch.Iterate

set_option autoImplicit false

/-! # The operations of a batch

The functions of `write_batch.cc` that change a batch: the counted appends of
`WriteBatchInternal` (`Put`, `Delete`, `SingleDelete`, `DeleteRange`, `Merge`, each in a
`Slice` and a `SliceParts` form), `PutLogData`, `InsertNoop`, the 2PC markers, `Clear`, the
save-point stack, `MarkWalTerminationPoint`, `Append` and `SetContents`.

The ten counted appends are one protocol (§4.2): take a local save point, count one more,
write the tag and the fields, raise the flag, and commit, which undoes all of it when the
batch has grown past `max_bytes`. That protocol is `WriteBatch.countedAppend`; each append
is it applied to its own tags, flag and field writer. `appendRecord` says in one
definition what every append does to a batch whose representation is known by its parts,
and the `_eq` lemmas of this file put every append in that form.

The `SliceParts` overloads write the length of all the parts, then the parts one after
another: exactly what the `Slice` overloads write for the concatenation of the parts,
whatever the parts (`sliceParts_eq_slice`).
-/

namespace RocksBatch

namespace WriteBatch

/-- `std::string::resize`: cut to `n` bytes, or pad with zero bytes up to `n`. -/
def resize (l : Bytes) (n : Nat) : Bytes := l.take n ++ List.replicate (n - l.length) 0

/-- Modelled from the spec: `LocalSavePoint` (`write_batch_internal.h`, not among the
sources), step 1 of §4.2: the size, the count and the content flags on entry. -/
def localSavePoint (b : WriteBatch) : SavePoint := ⟨b.getDataSize, b.count, b.contentFlags⟩

/-- Modelled from the spec: `LocalSavePoint::commit`, step 6 of §4.2: when `max_bytes` is
set and the representation now exceeds it, the three saved values are restored and the
append fails. -/
def commitSavePoint (save : SavePoint) (b : WriteBatch) : WriteBatch × Status :=
  if b.maxBytes ≠ 0 ∧ b.maxBytes < b.rep.length then
    ({ ({ b with rep := resize b.rep save.size }.setCount save.count) with
        contentFlags := save.content_flags }, .batchTooLarge)
  else (b, .ok)

/-- The protocol of the counted appends: `tag` for the default column family, `cfTag`
followed by the id for any other, then the fields `putFields` writes, and the flag `flag`. -/
def countedAppend (tag cfTag : ValueType) (flag : Nat) (putFields : Bytes → Bytes)
    (b : WriteBatch) (column_family_id : UInt32) : WriteBatch × Status :=
  let save := b.localSavePoint
  let b := b.setCount (b.count + 1)
  let rep :=
    if column_family_id = 0 then b.rep ++ [tag.toByte]
    else putVarint32 (b.rep ++ [cfTag.toByte]) column_family_id
  commitSavePoint save { b with rep := putFields rep, contentFlags := b.contentFlags ||| flag }

end WriteBatch

namespace WriteBatchInternal

open WriteBatch

/-- `WriteBatchInternal::Put` (`Slice` form). -/
def put (b : WriteBatch) (column_family_id : UInt32) (key value : Bytes) :=
  countedAppend .kTypeValue .kTypeColumnFamilyValue ContentFlags.hasPut
    (fun rep => putLengthPrefixedSlice (putLengthPrefixedSlice rep key) value) b column_family_id

/-- `WriteBatchInternal::Put` (`SliceParts` form). -/
def putParts (b : WriteBatch) (column_family_id : UInt32) (key value : List Bytes) :=
  countedAppend .kTypeValue .kTypeColumnFamilyValue ContentFlags.hasPut
    (fun rep => putLengthPrefixedSliceParts (putLengthPrefixedSliceParts rep key) value)
    b column_family_id

/-- `WriteBatchInternal::Delete` (`Slice` form). -/
def delete (b : WriteBatch) (column_family_id : UInt32) (key : Bytes) :=
  countedAppend .kTypeDeletion .kTypeColumnFamilyDeletion ContentFlags.hasDelete
    (fun rep => putLengthPrefixedSlice rep key) b column_family_id

/-- `WriteBatchInternal::Delete` (`SliceParts` form). -/
def deleteParts (b : WriteBatch) (column_family_id : UInt32) (key : List Bytes) :=
  countedAppend .kTypeDeletion .kTypeColumnFamilyDeletion ContentFlags.hasDelete
    (fun rep => putLengthPrefixedSliceParts rep key) b column_family_id

/-- `WriteBatchInternal::SingleDelete` (`Slice` form). -/
def singleDelete (b : WriteBatch) (column_family_id : UInt32) (key : Bytes) :=
  countedAppend .kTypeSingleDeletion .kTypeColumnFamilySingleDeletion
    ContentFlags.hasSingleDelete (fun rep => putLengthPrefixedSlice rep key) b column_family_id

/-- `WriteBatchInternal::SingleDelete` (`SliceParts` form). -/
def singleDeleteParts (b : WriteBatch) (column_family_id : UInt32) (key : List Bytes) :=
  countedAppend .kTypeSingleDeletion .kTypeColumnFamilySingleDeletion
    ContentFlags.hasSingleDelete (fun rep => putLengthPrefixedSliceParts rep key)
    b column_family_id

/-- `WriteBatchInternal::DeleteRange` (`Slice` form). -/
def deleteRange (b : WriteBatch) (column_family_id : UInt32) (begin_key end_key : Bytes) :=
  countedAppend .kTypeRangeDeletion .kTypeColumnFamilyRangeDeletion ContentFlags.hasDeleteRange
    (fun rep => putLengthPrefixedSlice (putLengthPrefixedSlice rep begin_key) end_key)
    b column_family_id

/-- `WriteBatchInternal::DeleteRange` (`SliceParts` form). -/
def deleteRangeParts (b : WriteBatch) (column_family_id : UInt32)
    (begin_key end_key : List Bytes) :=
  countedAppend .kTypeRangeDeletion .kTypeColumnFamilyRangeDeletion ContentFlags.hasDeleteRange
    (fun rep => putLengthPrefixedSliceParts (putLengthPrefixedSliceParts rep begin_key) end_key)
    b column_family_id

/-- `WriteBatchInternal::Merge` (`Slice` form). -/
def merge (b : WriteBatch) (column_family_id : UInt32) (key value : Bytes) :=
  countedAppend .kTypeMerge .kTypeColumnFamilyMerge ContentFlags.hasMerge
    (fun rep => putLengthPrefixedSlice (putLengthPrefixedSlice rep key) value) b column_family_id

/-- `WriteBatchInternal::Merge` (`SliceParts` form). -/
def mergeParts (b : WriteBatch) (column_family_id : UInt32) (key value : List Bytes) :=
  countedAppend .kTypeMerge .kTypeColumnFamilyMerge ContentFlags.hasMerge
    (fun rep => putLengthPrefixedSliceParts (putLengthPrefixedSliceParts rep key) value)
    b column_family_id

/-- `WriteBatchInternal::InsertNoop`. -/
def insertNoop (b : WriteBatch) : WriteBatch × Status :=
  ({ b with rep := b.rep ++ [ValueType.kTypeNoop.toByte] }, .ok)

/-- `WriteBatchInternal::MarkEndPrepare`: clear the save points, rewrite the `Noop` at
offset 12 as the begin marker and append the end marker with the xid. The source asserts
that offset 12 holds a `Noop`; callers of the model state it where they need it. -/
def markEndPrepare (b : WriteBatch) (xid : Bytes) : WriteBatch × Status :=
  let rep := b.rep.set 12 ValueType.kTypeBeginPrepareXID.toByte
  ({ b with
      savePoints := []
      rep := putLengthPrefixedSlice (rep ++ [ValueType.kTypeEndPrepareXID.toByte]) xid
      contentFlags :=
        b.contentFlags ||| ContentFlags.hasEndPrepare ||| ContentFlags.hasBeginPrepare }, .ok)

/-- `WriteBatchInternal::MarkCommit`. -/
def markCommit (b : WriteBatch) (xid : Bytes) : WriteBatch × Status :=
  ({ b with
      rep := putLengthPrefixedSlice (b.rep ++ [ValueType.kTypeCommitXID.toByte]) xid
      contentFlags := b.contentFlags ||| ContentFlags.hasCommit }, .ok)

/-- `WriteBatchInternal::MarkRollback`. -/
def markRollback (b : WriteBatch) (xid : Bytes) : WriteBatch × Status :=
  ({ b with
      rep := putLengthPrefixedSlice (b.rep ++ [ValueType.kTypeRollbackXID.toByte]) xid
      contentFlags := b.contentFlags ||| ContentFlags.hasRollback }, .ok)

/-- What `WriteBatchInternal::Append` copies from `src`: its size, count and flags at the
WAL termination point when `wal_only` and the point is set, its whole payload otherwise. -/
def appendSource (src : WriteBatch) (wal_only : Bool) : Nat × Int × Nat :=
  if wal_only && !src.walTermPoint.isCleared then
    (src.walTermPoint.size - kHeader, src.walTermPoint.count, src.walTermPoint.content_flags)
  else (src.rep.length - kHeader, src.count, src.contentFlags)

/-- `WriteBatchInternal::Append`: add the count, the payload bytes and the flags of `src`
(up to its WAL termination point when `wal_only`) to `dst`. The source copies `src_len`
bytes from offset 12 of `src` whether or not they are there; the model takes those that
are, and `appendReadsWithin` says when that is all of them. -/
def append (dst src : WriteBatch) (wal_only : Bool) : WriteBatch × Status :=
  let (src_len, src_count, src_flags) := appendSource src wal_only
  let dst := dst.setCount (dst.count + src_count)
  ({ dst with
      rep := dst.rep ++ (src.rep.drop kHeader).take src_len
      contentFlags := dst.contentFlags ||| src_flags }, .ok)

/-- The bytes `Append` reads from `src` are all inside `src`'s representation. -/
def appendReadsWithin (src : WriteBatch) (wal_only : Bool) : Prop :=
  kHeader + (appendSource src wal_only).1 ≤ src.rep.length

/-- `WriteBatchInternal::AppendedByteSize`. -/
def appendedByteSize (leftByteSize rightByteSize : Nat) : Nat :=
  if leftByteSize = 0 ∨ rightByteSize = 0 then leftByteSize + rightByteSize
  else leftByteSize + rightByteSize - kHeader

/-- `WriteBatchInternal::SetContents`. -/
def setContents (b : WriteBatch) (contents : Bytes) : WriteBatch :=
  { b with rep := contents, contentFlags := ContentFlags.deferred }

end WriteBatchInternal

namespace WriteBatch

/-- `WriteBatch::PutLogData`: an uncounted `LogData` record, under a local save point. -/
def putLogData (b : WriteBatch) (blob : Bytes) : WriteBatch × Status :=
  commitSavePoint b.localSavePoint
    { b with rep := putLengthPrefixedSlice (b.rep ++ [ValueType.kTypeLogData.toByte]) blob }

/-- `WriteBatch::Clear`. -/
def clear (b : WriteBatch) : WriteBatch :=
  { b with
      rep := List.replicate kHeader 0
      contentFlags := 0
      savePoints := []
      walTermPoint := .cleared }

/-- `WriteBatch::SetSavePoint`. -/
def setSavePoint (b : WriteBatch) : WriteBatch :=
  { b with savePoints := ⟨b.getDataSize, b.count, b.contentFlags⟩ :: b.savePoints }

/-- `WriteBatch::RollbackToSavePoint`: pop the top save point and go back to it: nothing to
do when the size has not changed, `Clear` when it is `0`, otherwise truncate and restore the
count and the flags. -/
def rollbackToSavePoint (b : WriteBatch) : WriteBatch × Status :=
  match b.savePoints with
  | [] => (b, .notFound "")
  | savepoint :: rest =>
      let b := { b with savePoints := rest }
      if savepoint.size = b.rep.length then (b, .ok)
      else if savepoint.size = 0 then (b.clear, .ok)
      else
        ({ ({ b with rep := resize b.rep savepoint.size }.setCount savepoint.count) with
            contentFlags := savepoint.content_flags }, .ok)

/-- The two assertions of `RollbackToSavePoint` on the save point it pops. -/
def RollbackAssertions (b : WriteBatch) : Prop :=
  ∀ sp rest, b.savePoints = sp :: rest → sp.size ≤ b.rep.length ∧ sp.count ≤ b.count

/-- `WriteBatch::PopSavePoint`. -/
def popSavePoint (b : WriteBatch) : WriteBatch × Status :=
  match b.savePoints with
  | [] => (b, .notFound "")
  | _ :: rest => ({ b with savePoints := rest }, .ok)

/-- `WriteBatch::MarkWalTerminationPoint`. -/
def markWalTerminationPoint (b : WriteBatch) : WriteBatch :=
  { b with walTermPoint := ⟨b.getDataSize, b.count, b.contentFlags⟩ }

/-! ## Appends by the parts of the representation -/

/-- A representation of `n` bytes stays within `max_bytes` (`0` is no limit). -/
def Fits (b : WriteBatch) (n : Nat) : Prop := b.maxBytes = 0 ∨ n ≤ b.maxBytes

instance (b : WriteBatch) (n : Nat) : Decidable (b.Fits n) :=
  inferInstanceAs (Decidable (b.maxBytes = 0 ∨ n ≤ b.maxBytes))

/-- The batch with the record `r` written after the payload `p` of the representation
`headerRep seq cnt p`: the count grows by one for a counted record, and the record's flag
is raised. -/
def pushRecord (b : WriteBatch) (seq : UInt64) (cnt : UInt32) (p : Bytes) (r : Record) :
    WriteBatch :=
  { b with
      rep := headerRep seq (if r.IsCounted then cnt + 1 else cnt) (p ++ r.encode)
      contentFlags := b.contentFlags ||| r.flag }

/-- **What every append under a local save point does**: `pushRecord` when the result fits
in `max_bytes`; otherwise the batch is left exactly as it was and the append fails. -/
def appendRecord (b : WriteBatch) (seq : UInt64) (cnt : UInt32) (p : Bytes) (r : Record) :
    WriteBatch × Status :=
  if b.Fits (kHeader + p.length + r.encode.length) then (b.pushRecord seq cnt p r, .ok)
  else (b, .batchTooLarge)

/-- Cutting a representation back to a payload prefix. -/
theorem resize_headerRep (seq : UInt64) (cnt : UInt32) (p q : Bytes) :
    resize (headerRep seq cnt (p ++ q)) (kHeader + p.length) = headerRep seq cnt p := by
  rw [resize, take_headerRep, List.take_left' rfl]
  simp

theorem getElem?_kHeader_headerRep (seq : UInt64) (cnt : UInt32) (p : Bytes) :
    (headerRep seq cnt p)[kHeader]? = p[0]? := by
  simp [headerRep, kHeader, List.getElem?_append_right]

theorem replicate_kHeader : List.replicate kHeader 0 = headerRep 0 0 [] := by decide

theorem new_rep (max_bytes : Nat) : (WriteBatch.new max_bytes).rep = headerRep 0 0 [] :=
  replicate_kHeader

variable {b : WriteBatch} {seq : UInt64} {cnt : UInt32} {p : Bytes}

theorem localSavePoint_eq (hb : b.rep = headerRep seq cnt p) :
    b.localSavePoint = ⟨kHeader + p.length, toInt32 cnt, b.contentFlags⟩ := by
  simp [localSavePoint, getDataSize, hb, b.count_headerRep seq cnt p hb]

/-- Committing after `q` was appended and the count set to `cnt'`: kept when it fits,
otherwise undone to exactly the batch before. -/
theorem commitSavePoint_eq (hb : b.rep = headerRep seq cnt p) (cnt' : UInt32) (q : Bytes)
    (f : Nat) :
    commitSavePoint b.localSavePoint { b with rep := headerRep seq cnt' (p ++ q), contentFlags := f } =
      if b.Fits (kHeader + p.length + q.length) then
        ({ b with rep := headerRep seq cnt' (p ++ q), contentFlags := f }, .ok)
      else (b, .batchTooLarge) := by
  rw [localSavePoint_eq hb, commitSavePoint]
  by_cases hfit : b.Fits (kHeader + p.length + q.length)
  · rw [if_pos hfit, if_neg]
    simp only [length_headerRep, List.length_append, not_and, not_lt]
    rcases hfit with h | h <;> omega
  · rw [if_neg hfit, if_pos]
    · have hres := resize_headerRep seq cnt' p q
      obtain ⟨sp, wt, fl, mb, rep⟩ := b
      dsimp only at hb ⊢
      subst hb
      have hc := setCount_rep ⟨sp, wt, f, mb, headerRep seq cnt' p⟩ seq cnt' p rfl (toInt32 cnt)
      rw [ofInt32_toInt32] at hc
      simp only [hres, setCount] at hc ⊢
      rw [hc]
    · simp only [Fits, not_or, not_le] at hfit
      simp only [length_headerRep, List.length_append]
      omega

/-- The protocol of the counted appends writes the counted record `r` whose tag, flag and
fields are those the append is given. -/
theorem countedAppend_eq (hb : b.rep = headerRep seq cnt p) {tag cfTag' : ValueType}
    {flag : Nat} {putFields : Bytes → Bytes} {cf : UInt32} (r : Record) (fields : Bytes)
    (hr : r.IsCounted) (htag : r.tag = Record.cfTag tag cfTag' cf) (hflag : r.flag = flag)
    (hbody : r.body = Record.cfBytes cf ++ fields)
    (hput : ∀ rep, putFields rep = rep ++ fields) :
    countedAppend tag cfTag' flag putFields b cf = b.appendRecord seq cnt p r := by
  have hc : (b.setCount (b.count + 1)).rep = headerRep seq (cnt + 1) p := by
    rw [setCount_rep b seq cnt p hb, count_headerRep b seq cnt p hb, ofInt32_toInt32_add_one]
  have hrep : putFields (if cf = 0 then (b.setCount (b.count + 1)).rep ++ [tag.toByte]
      else putVarint32 ((b.setCount (b.count + 1)).rep ++ [cfTag'.toByte]) cf) =
      headerRep seq (cnt + 1) (p ++ r.encode) := by
    rw [hput, hc, Record.encode, htag, hbody, ← headerRep_append]
    by_cases h : cf = 0 <;> simp [h, Record.cfTag, Record.cfBytes, putVarint32]
  simp only [countedAppend]
  rw [hrep, appendRecord, pushRecord, if_pos hr, hflag]
  exact commitSavePoint_eq hb (cnt + 1) r.encode (b.contentFlags ||| flag)

theorem putLogData_eq (hb : b.rep = headerRep seq cnt p) (blob : Bytes) :
    b.putLogData blob = b.appendRecord seq cnt p (.logData blob) := by
  have hrep : putLengthPrefixedSlice (b.rep ++ [ValueType.kTypeLogData.toByte]) blob =
      headerRep seq cnt (p ++ (Record.logData blob).encode) := by
    simp [hb, Record.encode, Record.tag, Record.body, putLengthPrefixedSlice_eq, headerRep_append]
  rw [putLogData, hrep, commitSavePoint_eq hb, appendRecord, pushRecord]
  simp [Record.flag, Record.IsCounted]

theorem set_kHeader_headerRep (seq : UInt64) (cnt : UInt32) (p : Bytes) (x y : UInt8) :
    (headerRep seq cnt (x :: p)).set kHeader y = headerRep seq cnt (y :: p) := by
  rw [headerRep, List.set_append_right _ _ (by simp [kHeader])]
  simp [headerRep, kHeader]

end WriteBatch

namespace WriteBatchInternal

open WriteBatch

variable {b : WriteBatch} {seq : UInt64} {cnt : UInt32} {p : Bytes}

/-! The ten counted appends, each the record of its own kind. -/

theorem put_eq (hb : b.rep = headerRep seq cnt p) (cf : UInt32) (key value : Bytes) :
    put b cf key value = b.appendRecord seq cnt p (.put cf key value) :=
  countedAppend_eq hb _ (lengthPrefixed key ++ lengthPrefixed value) rfl rfl rfl
    (List.append_assoc _ _ _) fun _ => by simp [putLengthPrefixedSlice_eq]

theorem putParts_eq (hb : b.rep = headerRep seq cnt p) (cf : UInt32) (key value : List Bytes) :
    putParts b cf key value = b.appendRecord seq cnt p (.put cf key.flatten value.flatten) :=
  countedAppend_eq hb _ (lengthPrefixed key.flatten ++ lengthPrefixed value.flatten) rfl rfl rfl
    (List.append_assoc _ _ _) fun _ => by simp [putLengthPrefixedSliceParts_eq]

theorem delete_eq (hb : b.rep = headerRep seq cnt p) (cf : UInt32) (key : Bytes) :
    delete b cf key = b.appendRecord seq cnt p (.delete cf key) :=
  countedAppend_eq hb _ (lengthPrefixed key) rfl rfl rfl rfl
    fun _ => putLengthPrefixedSlice_eq _ _

theorem deleteParts_eq (hb : b.rep = headerRep seq cnt p) (cf : UInt32) (key : List Bytes) :
    deleteParts b cf key = b.appendRecord seq cnt p (.delete cf key.flatten) :=
  countedAppend_eq hb _ (lengthPrefixed key.flatten) rfl rfl rfl rfl
    fun _ => putLengthPrefixedSliceParts_eq _ _

theorem singleDelete_eq (hb : b.rep = headerRep seq cnt p) (cf : UInt32) (key : Bytes) :
    singleDelete b cf key = b.appendRecord seq cnt p (.singleDelete cf key) :=
  countedAppend_eq hb _ (lengthPrefixed key) rfl rfl rfl rfl
    fun _ => putLengthPrefixedSlice_eq _ _

theorem singleDeleteParts_eq (hb : b.rep = headerRep seq cnt p) (cf : UInt32)
    (key : List Bytes) :
    singleDeleteParts b cf key = b.appendRecord seq cnt p (.singleDelete cf key.flatten) :=
  countedAppend_eq hb _ (lengthPrefixed key.flatten) rfl rfl rfl rfl
    fun _ => putLengthPrefixedSliceParts_eq _ _

theorem deleteRange_eq (hb : b.rep = headerRep seq cnt p) (cf : UInt32)
    (begin_key end_key : Bytes) :
    deleteRange b cf begin_key end_key =
      b.appendRecord seq cnt p (.deleteRange cf begin_key end_key) :=
  countedAppend_eq hb _ (lengthPrefixed begin_key ++ lengthPrefixed end_key) rfl rfl rfl
    (List.append_assoc _ _ _) fun _ => by simp [putLengthPrefixedSlice_eq]

theorem deleteRangeParts_eq (hb : b.rep = headerRep seq cnt p) (cf : UInt32)
    (begin_key end_key : List Bytes) :
    deleteRangeParts b cf begin_key end_key =
      b.appendRecord seq cnt p (.deleteRange cf begin_key.flatten end_key.flatten) :=
  countedAppend_eq hb _ (lengthPrefixed begin_key.flatten ++ lengthPrefixed end_key.flatten)
    rfl rfl rfl (List.append_assoc _ _ _) fun _ => by simp [putLengthPrefixedSliceParts_eq]

theorem merge_eq (hb : b.rep = headerRep seq cnt p) (cf : UInt32) (key value : Bytes) :
    merge b cf key value = b.appendRecord seq cnt p (.merge cf key value) :=
  countedAppend_eq hb _ (lengthPrefixed key ++ lengthPrefixed value) rfl rfl rfl
    (List.append_assoc _ _ _) fun _ => by simp [putLengthPrefixedSlice_eq]

theorem mergeParts_eq (hb : b.rep = headerRep seq cnt p) (cf : UInt32) (key value : List Bytes) :
    mergeParts b cf key value = b.appendRecord seq cnt p (.merge cf key.flatten value.flatten) :=
  countedAppend_eq hb _ (lengthPrefixed key.flatten ++ lengthPrefixed value.flatten) rfl rfl rfl
    (List.append_assoc _ _ _) fun _ => by simp [putLengthPrefixedSliceParts_eq]

/-! The appends without a save point always succeed. -/

theorem insertNoop_eq (hb : b.rep = headerRep seq cnt p) :
    insertNoop b = (b.pushRecord seq cnt p .noop, .ok) := by
  simp [insertNoop, pushRecord, hb, headerRep_append, Record.encode, Record.tag, Record.body,
    Record.flag, Record.IsCounted]

theorem markCommit_eq (hb : b.rep = headerRep seq cnt p) (xid : Bytes) :
    markCommit b xid = (b.pushRecord seq cnt p (.commit xid), .ok) := by
  simp [markCommit, pushRecord, hb, headerRep_append, Record.encode, Record.tag, Record.body,
    Record.flag, Record.IsCounted, putLengthPrefixedSlice_eq]

theorem markRollback_eq (hb : b.rep = headerRep seq cnt p) (xid : Bytes) :
    markRollback b xid = (b.pushRecord seq cnt p (.rollback xid), .ok) := by
  simp [markRollback, pushRecord, hb, headerRep_append, Record.encode, Record.tag, Record.body,
    Record.flag, Record.IsCounted, putLengthPrefixedSlice_eq]

/-- `MarkEndPrepare` on a payload whose first byte is `x`: that byte becomes the begin
marker and the end marker is added. -/
theorem markEndPrepare_eq {x : UInt8} (hb : b.rep = headerRep seq cnt (x :: p)) (xid : Bytes) :
    markEndPrepare b xid =
      ({ b with
          savePoints := []
          rep := headerRep seq cnt (Record.beginPrepare.encode ++ p ++ (Record.endPrepare xid).encode)
          contentFlags :=
            b.contentFlags ||| ContentFlags.hasEndPrepare ||| ContentFlags.hasBeginPrepare }, .ok) := by
  have h := set_kHeader_headerRep seq cnt p x ValueType.kTypeBeginPrepareXID.toByte
  simp only [kHeader] at h
  simp [markEndPrepare, hb, h, headerRep_append, Record.encode, Record.tag, Record.body,
    putLengthPrefixedSlice_eq]

/-- `Append` adds the count, the payload bytes up to `(appendSource src wal_only).1` and the
flags that `appendSource` names to the batch. -/
theorem append_eq (hb : b.rep = headerRep seq cnt p) (src : WriteBatch) (wal_only : Bool) :
    append b src wal_only =
      ({ b with
          rep := headerRep seq (cnt + ofInt32 (appendSource src wal_only).2.1)
            (p ++ (src.rep.drop kHeader).take (appendSource src wal_only).1)
          contentFlags := b.contentFlags ||| (appendSource src wal_only).2.2 }, .ok) := by
  have hc : (b.setCount (b.count + (appendSource src wal_only).2.1)).rep =
      headerRep seq (cnt + ofInt32 (appendSource src wal_only).2.1) p := by
    rw [setCount_rep b seq cnt p hb, count_headerRep b seq cnt p hb,
      ofInt32_toInt32_add_ofInt32]
  simp only [append, hc, headerRep_append, setCount_savePoints, setCount_walTermPoint,
    setCount_contentFlags, setCount_maxBytes]

/-- Without a WAL termination point to stop at, `Append` takes the whole of `src`. -/
theorem appendSource_whole {src : WriteBatch} {seq' : UInt64} {cnt' : UInt32} {q : Bytes}
    (hs : src.rep = headerRep seq' cnt' q) {wal_only : Bool}
    (hw : wal_only = false ∨ src.walTermPoint.isCleared) :
    appendSource src wal_only = (q.length, toInt32 cnt', src.contentFlags) := by
  have : (wal_only && !src.walTermPoint.isCleared) = false := by
    rcases hw with rfl | h <;> simp [*]
  simp [appendSource, this, hs, src.count_headerRep seq' cnt' q hs]

/-- `Append` of a whole batch: the header keeps its sequence and adds the count of `src`,
and the payload of `src` follows. -/
theorem append_rep (hb : b.rep = headerRep seq cnt p) {src : WriteBatch} {seq' : UInt64}
    {cnt' : UInt32} {q : Bytes} (hs : src.rep = headerRep seq' cnt' q) {wal_only : Bool}
    (hw : wal_only = false ∨ src.walTermPoint.isCleared) :
    (append b src wal_only).1.rep = headerRep seq (cnt + cnt') (p ++ q) := by
  rw [append_eq hb, appendSource_whole hs hw]
  simp [hs]

theorem append_contentFlags {src : WriteBatch} {seq' : UInt64} {cnt' : UInt32} {q : Bytes}
    (hs : src.rep = headerRep seq' cnt' q) {wal_only : Bool}
    (hw : wal_only = false ∨ src.walTermPoint.isCleared) :
    (append b src wal_only).1.contentFlags = b.contentFlags ||| src.contentFlags := by
  simp only [append, appendSource_whole hs hw, setCount_contentFlags]

end WriteBatchInternal

/-! ## The `SliceParts` appends -/

section SliceParts

open WriteBatchInternal

theorem putLengthPrefixedSliceParts_eq_flatten (dst : Bytes) (parts : List Bytes) :
    putLengthPrefixedSliceParts dst parts = putLengthPrefixedSlice dst parts.flatten := by
  rw [putLengthPrefixedSliceParts_eq, putLengthPrefixedSlice_eq]

/-- **The `SliceParts` appends are the `Slice` appends of the concatenations**: on every
batch, for every column family and every split of the key and the value into parts, the
five `SliceParts` overloads return the status and the batch of the `Slice` overloads. -/
theorem sliceParts_eq_slice (b : WriteBatch) (cf : UInt32) (key value : List Bytes) :
    putParts b cf key value = put b cf key.flatten value.flatten ∧
      deleteParts b cf key = delete b cf key.flatten ∧
      singleDeleteParts b cf key = singleDelete b cf key.flatten ∧
      deleteRangeParts b cf key value = deleteRange b cf key.flatten value.flatten ∧
      mergeParts b cf key value = merge b cf key.flatten value.flatten := by
  refine ⟨?_, ?_, ?_, ?_, ?_⟩ <;>
  simp only [putParts, put, deleteParts, delete, singleDeleteParts, singleDelete,
    deleteRangeParts, deleteRange, mergeParts, merge, putLengthPrefixedSliceParts_eq_flatten]

end SliceParts

end RocksBatch
