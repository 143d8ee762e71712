import RocksBatch.Batch.Ops

set_option autoImplicit false

/-! # The batches a program can build

A batch is built from a fresh `WriteBatch` (or from bytes, `WriteBatch(rep)`) by calls of
the functions of `write_batch.cc`, and by `WriteBatchInternal::Append` of another batch
built the same way. `Op` names the calls on one batch, `Op.apply` runs one, and
`Reachable` closes the start states under them and under `Append`.

Which start states, which calls and which `Append`s are allowed is a parameter: the
properties of a batch hold over different sets of runs, and each states its own.
-/

namespace RocksBatch

/-- The appends that run under a local save point and fail past `max_bytes`: the ten counted
appends of `WriteBatchInternal` and `PutLogData`. -/
inductive AppendOp
  | put (cf : UInt32) (key value : Bytes)
  | putParts (cf : UInt32) (key value : List Bytes)
  | delete (cf : UInt32) (key : Bytes)
  | deleteParts (cf : UInt32) (key : List Bytes)
  | singleDelete (cf : UInt32) (key : Bytes)
  | singleDeleteParts (cf : UInt32) (key : List Bytes)
  | deleteRange (cf : UInt32) (begin_key end_key : Bytes)
  | deleteRangeParts (cf : UInt32) (begin_key end_key : List Bytes)
  | merge (cf : UInt32) (key value : Bytes)
  | mergeParts (cf : UInt32) (key value : List Bytes)
  | putLogData (blob : Bytes)
  deriving Repr

namespace AppendOp

/-- The call. -/
def apply : AppendOp → WriteBatch → WriteBatch × Status
  | .put cf k v, b => WriteBatchInternal.put b cf k v
  | .putParts cf k v, b => WriteBatchInternal.putParts b cf k v
  | .delete cf k, b => WriteBatchInternal.delete b cf k
  | .deleteParts cf k, b => WriteBatchInternal.deleteParts b cf k
  | .singleDelete cf k, b => WriteBatchInternal.singleDelete b cf k
  | .singleDeleteParts cf k, b => WriteBatchInternal.singleDeleteParts b cf k
  | .deleteRange cf k e, b => WriteBatchInternal.deleteRange b cf k e
  | .deleteRangeParts cf k e, b => WriteBatchInternal.deleteRangeParts b cf k e
  | .merge cf k v, b => WriteBatchInternal.merge b cf k v
  | .mergeParts cf k v, b => WriteBatchInternal.mergeParts b cf k v
  | .putLogData blob, b => b.putLogData blob

/-- The record the call writes; a `SliceParts` field is its parts one after another. -/
def record : AppendOp → Record
  | .put cf k v => .put cf k v
  | .putParts cf k v => .put cf k.flatten v.flatten
  | .delete cf k => .delete cf k
  | .deleteParts cf k => .delete cf k.flatten
  | .singleDelete cf k => .singleDelete cf k
  | .singleDeleteParts cf k => .singleDelete cf k.flatten
  | .deleteRange cf k e => .deleteRange cf k e
  | .deleteRangeParts cf k e => .deleteRange cf k.flatten e.flatten
  | .merge cf k v => .merge cf k v
  | .mergeParts cf k v => .merge cf k.flatten v.flatten
  | .putLogData blob => .logData blob

/-- Every append is `appendRecord` of its record. -/
theorem apply_eq {b : WriteBatch} {seq : UInt64} {cnt : UInt32} {p : Bytes}
    (hb : b.rep = headerRep seq cnt p) :
    ∀ a : AppendOp, a.apply b = b.appendRecord seq cnt p a.record
  | .put .. => WriteBatchInternal.put_eq hb ..
  | .putParts .. => WriteBatchInternal.putParts_eq hb ..
  | .delete .. => WriteBatchInternal.delete_eq hb ..
  | .deleteParts .. => WriteBatchInternal.deleteParts_eq hb ..
  | .singleDelete .. => WriteBatchInternal.singleDelete_eq hb ..
  | .singleDeleteParts .. => WriteBatchInternal.singleDeleteParts_eq hb ..
  | .deleteRange .. => WriteBatchInternal.deleteRange_eq hb ..
  | .deleteRangeParts .. => WriteBatchInternal.deleteRangeParts_eq hb ..
  | .merge .. => WriteBatchInternal.merge_eq hb ..
  | .mergeParts .. => WriteBatchInternal.mergeParts_eq hb ..
  | .putLogData .. => WriteBatch.putLogData_eq hb ..

end AppendOp

/-- A call on one batch. `hasFlag` stands for the nine `Has*` queries, which differ only in
the bit they test. -/
inductive Op
  | append (a : AppendOp)
  | insertNoop
  | markEndPrepare (xid : Bytes)
  | markCommit (xid : Bytes)
  | markRollback (xid : Bytes)
  | markWalTerminationPoint
  | hasFlag (flag : Nat)
  | clear
  | setSavePoint
  | rollbackToSavePoint
  | popSavePoint
  deriving Repr

namespace Op

/-- The batch after the call. -/
def apply : Op → WriteBatch → WriteBatch
  | .append a, b => (a.apply b).1
  | .insertNoop, b => (WriteBatchInternal.insertNoop b).1
  | .markEndPrepare xid, b => (WriteBatchInternal.markEndPrepare b xid).1
  | .markCommit xid, b => (WriteBatchInternal.markCommit b xid).1
  | .markRollback xid, b => (WriteBatchInternal.markRollback b xid).1
  | .markWalTerminationPoint, b => b.markWalTerminationPoint
  | .hasFlag flag, b => (b.hasFlag flag).2
  | .clear, b => b.clear
  | .setSavePoint, b => b.setSavePoint
  | .rollbackToSavePoint, b => b.rollbackToSavePoint.1
  | .popSavePoint, b => b.popSavePoint.1

/-- The records the call may write. -/
def records : Op → List Record
  | .append a => [a.record]
  | .insertNoop => [.noop]
  | .markEndPrepare xid => [.endPrepare xid]
  | .markCommit xid => [.commit xid]
  | .markRollback xid => [.rollback xid]
  | _ => []

/-- What the callers of a call promise: `MarkEndPrepare` is called on a batch whose first
record is the `Noop` that `InsertNoop` wrote, the byte at offset 12. -/
def Enabled : Op → WriteBatch → Prop
  | .markEndPrepare _, b => b.rep[kHeader]? = some ValueType.kTypeNoop.toByte
  | _, _ => True

/-- Every key, value, blob and xid the call writes fits its 32-bit length prefix. -/
def Small (op : Op) : Prop := ∀ r ∈ op.records, r.Small

instance (op : Op) : Decidable op.Small :=
  inferInstanceAs (Decidable (∀ r ∈ op.records, r.Small))

end Op

/-- The batches built from the start states `Start` by the calls `Allowed` permits (on top
of what their callers promise) and by the `Append`s of another such batch that
`AppendAllowed` permits, given the source batch and `wal_only`. -/
inductive Reachable (Start : WriteBatch → Prop) (Allowed : Op → WriteBatch → Prop)
    (AppendAllowed : WriteBatch → Bool → Prop) : WriteBatch → Prop
  | start {b : WriteBatch} : Start b → Reachable Start Allowed AppendAllowed b
  | step {b : WriteBatch} (op : Op) : Reachable Start Allowed AppendAllowed b → op.Enabled b →
      Allowed op b → Reachable Start Allowed AppendAllowed (op.apply b)
  | append {dst src : WriteBatch} (wal_only : Bool) : Reachable Start Allowed AppendAllowed dst →
      Reachable Start Allowed AppendAllowed src → AppendAllowed src wal_only →
      Reachable Start Allowed AppendAllowed (WriteBatchInternal.append dst src wal_only).1

/-- An `Append` that copies the whole source: `wal_only` unset, or no WAL termination point
in the source. -/
def WholeAppend (src : WriteBatch) (wal_only : Bool) : Prop :=
  wal_only = false ∨ src.walTermPoint.isCleared

/-- The fresh batches, `WriteBatch(reserved_bytes, max_bytes)` for any `max_bytes`. -/
def Fresh (b : WriteBatch) : Prop := ∃ max_bytes, b = WriteBatch.new max_bytes

end RocksBatch
