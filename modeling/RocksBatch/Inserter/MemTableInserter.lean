import RocksBatch.Batch.Ops

set_option autoImplicit false

/-! # The memtable inserter

`MemTableInserter` is the handler that `WriteBatchInternal::InsertInto` iterates a batch
with: it applies every counted record to the memtable of its column family, at the next
sequence number. The column-family registry, the memtables, the flush scheduler and the DB
are outside the sources. What the inserter asks of them is an environment `Env` of answers;
the answers that depend on a memtable's contents are indexed by the sequence number they
are asked at. What it asks them to do is a list of `Effect`s in the inserter's state.

During recovery (`recovering_log_number_ ≠ 0`) a prepare section is not applied: its
records are appended to a rebuilt batch that `MarkEndPrepare` hands to the DB's table of
recovered transactions, and `MarkCommit` replays that batch by `Iterate` with the inserter
itself. The replay is the one recursion of the inserter; the model bounds its nesting by a
depth (`memTableInserter env depth`), and a replay below depth zero is not made.

The assertions of the source are checks (`InserterState.check`) that record the asserted
condition when it fails; the model then goes on as a build without assertions does.
Counters of statistics, the concurrent-write post-processing and the locking around the
DB are not modelled.
-/

namespace RocksBatch

/-! ## Collaborators -/

/-- The verdict of a column family's `inplace_callback`. -/
inductive UpdateStatus
  | updateFailed
  | updatedInplace
  | updated
  deriving DecidableEq, Repr

/-- What the inserter reads of a column family that `Seek` found: its log number, the
memtable options it looks at, and the column-family data a range deletion checks. -/
structure ColumnFamily where
  /-- `GetLogNumber()`. -/
  logNumber : Nat
  inplaceUpdateSupport : Bool
  /-- `inplace_callback`, when set: from the previous value (none for `nullptr`) and the
  new one, its verdict, the previous value as the callback leaves it, and the merged one. -/
  inplaceCallback : Option (Option Bytes → Bytes → UpdateStatus × Bytes × Bytes)
  maxSuccessiveMerges : Nat
  /-- `MergeHelper::TimedFullMerge` with the memtable's merge operator: from the key, the
  existing value and the operand, the merged value, or none when the merge fails. -/
  fullMerge : Bytes → Bytes → Bytes → Option Bytes
  /-- `is_delete_range_supported()` of the column family the handle reaches (the default
  one for a null handle), with the name of its table factory and its own name. -/
  deleteRangeSupported : Bool
  tableFactoryName : String
  name : String

/-- The inserter's construction parameters and the answers of its collaborators. -/
structure Env where
  /-- `cf_mems_->Seek(column_family_id)`, and what is read of the column family found. -/
  columnFamily : UInt32 → Option ColumnFamily
  ignoreMissingColumnFamilies : Bool
  recoveringLogNumber : Nat
  /-- `db_ != nullptr`. -/
  hasDb : Bool
  /-- `db_->allow_2pc()`. -/
  allow2pc : Bool
  /-- `flush_scheduler_ != nullptr`. -/
  hasFlushScheduler : Bool
  /-- `mem->UpdateCallback(sequence_, key, value)`: whether the memtable took the update. -/
  updateCallback : UInt32 → UInt64 → Bytes → Bytes → Bool
  /-- `db_->Get` at the snapshot `sequence_`: its status and the value string it leaves. -/
  dbGet : UInt32 → UInt64 → Bytes → Status × Bytes
  /-- `mem->CountSuccessiveMergeEntries(LookupKey(key, sequence_))`. -/
  countSuccessiveMergeEntries : UInt32 → UInt64 → Bytes → Nat
  /-- `ShouldScheduleFlush() && MarkFlushScheduled()` on the column family's memtable. -/
  shouldScheduleFlush : UInt32 → UInt64 → Bool

/-- A column family with the default memtable options: no in-place update, no merge
folding, range deletions supported. -/
def ColumnFamily.plain (logNumber : Nat) : ColumnFamily :=
  ⟨logNumber, false, none, 0, fun _ _ _ => none, true, "BlockBasedTable", "default"⟩

/-- The column family `0` alone, plain with log number `0`; a DB that allows 2PC and has
nothing to read, no flush scheduler, and memtables that hold no merge. -/
def Env.plain (recoveringLogNumber : Nat) : Env where
  columnFamily cf := if cf = 0 then some (ColumnFamily.plain 0) else none
  ignoreMissingColumnFamilies := false
  recoveringLogNumber := recoveringLogNumber
  hasDb := true
  allow2pc := true
  hasFlushScheduler := false
  updateCallback _ _ _ _ := false
  dbGet _ _ _ := (.notFound "", [])
  countSuccessiveMergeEntries _ _ _ := 0
  shouldScheduleFlush _ _ := false

/-- A call the inserter makes on the memtable of a column family, or on the flush
scheduler for it. -/
inductive Effect
  | add (cf : UInt32) (seq : UInt64) (type : ValueType) (key value : Bytes)
  | update (cf : UInt32) (seq : UInt64) (key value : Bytes)
  | updateCallback (cf : UInt32) (seq : UInt64) (key value : Bytes) (updated : Bool)
  | refLogContainingPrepSection (cf : UInt32) (log : Nat)
  | scheduleFlush (cf : UInt32)
  deriving DecidableEq, Repr

namespace Effect

/-- The column family the call is for. -/
def cf : Effect → UInt32
  | add cf .. | update cf .. | updateCallback cf .. | refLogContainingPrepSection cf _
  | scheduleFlush cf => cf

/-- The sequence number of a call that changes the entries of a memtable. -/
def mutation? : Effect → Option UInt64
  | add _ seq .. | update _ seq .. => some seq
  | updateCallback _ seq _ _ updated => if updated then some seq else none
  | refLogContainingPrepSection .. | scheduleFlush _ => none

end Effect

/-- Modelled from the spec: an entry of the DB's table of recovered transactions, the
log its prepare section was read from and the batch rebuilt from it (none for the
`nullptr` of a `MarkEndPrepare` with no batch being rebuilt). -/
structure RecoveredTransaction where
  logNumber : Nat
  batch : Option WriteBatch

/-- The table of recovered transactions, by xid. -/
abbrev RecoveredTable := Bytes → Option RecoveredTransaction

/-- Modelled from the spec: `InsertRecoveredTransaction(log, name, batch)`. -/
def insertRecoveredTransaction (log : Nat) (name : Bytes) (batch : Option WriteBatch)
    (table : RecoveredTable) : RecoveredTable :=
  fun n => if n = name then some ⟨log, batch⟩ else table n

/-- Modelled from the spec: `DeleteRecoveredTransaction(name)`. -/
def deleteRecoveredTransaction (name : Bytes) (table : RecoveredTable) : RecoveredTable :=
  fun n => if n = name then none else table n

/-! ## The inserter's state -/

/-- The fields of `MemTableInserter` that change, the DB's table of recovered
transactions, and what was done so far: the calls on memtables and the failed
assertions. -/
structure InserterState where
  sequence : UInt64
  logNumberRef : Nat
  rebuildingTrx : Option WriteBatch
  hasValidWrites : Bool
  recovered : RecoveredTable
  effects : List Effect
  failedAsserts : List String

namespace InserterState

/-- A new inserter at `sequence`, over the DB's table. -/
def start (sequence : UInt64) (table : RecoveredTable) : InserterState :=
  ⟨sequence, 0, none, false, table, [], []⟩

/-- A call on a memtable. -/
@[simps] def emit (st : InserterState) (e : Effect) : InserterState :=
  { st with effects := st.effects ++ [e] }

/-- `assert(c)`, recorded when it fails. -/
@[simps] def check (st : InserterState) (c : Bool) (cond : String) : InserterState :=
  { st with failedAsserts := if c then st.failedAsserts else st.failedAsserts ++ [cond] }

/-- `sequence_++`. -/
@[simps] def bump (st : InserterState) : InserterState :=
  { st with sequence := st.sequence + 1 }

@[simp] theorem check_true (st : InserterState) (cond : String) : st.check true cond = st := rfl

end InserterState

/-! ## The callbacks -/

namespace MemTableInserter

open InserterState

variable (env : Env)

/-- `SeekToColumnFamily`: the column family, when the record is to be applied to it; the
status to return when it is not. Applying marks valid writes and references the bound log
from the memtable. -/
def seekToColumnFamily (cfId : UInt32) (st : InserterState) :
    Option ColumnFamily × Status × InserterState :=
  match env.columnFamily cfId with
  | none =>
      (none, if env.ignoreMissingColumnFamilies then .ok
        else .invalidArgument "Invalid column family specified in write batch", st)
  | some cf =>
      if env.recoveringLogNumber ≠ 0 ∧ env.recoveringLogNumber < cf.logNumber then
        (none, .ok, st)
      else
        let st := { st with hasValidWrites := true }
        (some cf, .ok,
          if 0 < st.logNumberRef then st.emit (.refLogContainingPrepSection cfId st.logNumberRef)
          else st)

/-- `CheckMemtableFull`. -/
def checkMemtableFull (cfId : UInt32) (st : InserterState) : InserterState :=
  if env.hasFlushScheduler ∧ env.shouldScheduleFlush cfId st.sequence then
    st.emit (.scheduleFlush cfId)
  else st

/-- What the five counted callbacks share: in a prepare section being rebuilt, the record
is appended to the rebuilt batch by `rebuild`; otherwise the column family is sought, a
record it is not applied to consumes its sequence number, and `write` applies the others. -/
def countedCallback (cfId : UInt32) (rebuild : WriteBatch → WriteBatch)
    (write : ColumnFamily → InserterState → Status × InserterState) (st : InserterState) :
    Status × InserterState :=
  match st.rebuildingTrx with
  | some trx => (.ok, { st with rebuildingTrx := some (rebuild trx) })
  | none =>
      match seekToColumnFamily env cfId st with
      | (some cf, _, st) => write cf st
      | (none, s, st) => (s, st.bump)

/-- The memtable write of `PutCF`, by the memtable's options: an `Add`, an in-place
`Update`, or the in-place callback, which falls back on reading the previous value from
the DB (outside recovery) and adding what the user callback makes of it. -/
def putValue (cfId : UInt32) (key value : Bytes) (cf : ColumnFamily) (st : InserterState) :
    InserterState :=
  if !cf.inplaceUpdateSupport then st.emit (.add cfId st.sequence .kTypeValue key value)
  else
    match cf.inplaceCallback with
    | none => st.emit (.update cfId st.sequence key value)
    | some callback =>
        let updated := env.updateCallback cfId st.sequence key value
        let st := st.emit (.updateCallback cfId st.sequence key value updated)
        if updated then st
        else
          let (s, prevValue) :=
            if env.hasDb ∧ env.recoveringLogNumber = 0 then env.dbGet cfId st.sequence key
            else (.notSupported "", [])
          match callback (if s = .ok then some prevValue else none) value with
          | (.updatedInplace, prev, _) =>
              st.emit (.add cfId st.sequence .kTypeValue key (if s = .ok then prev else prevValue))
          | (.updated, _, merged) => st.emit (.add cfId st.sequence .kTypeValue key merged)
          | (.updateFailed, _, _) => st

/-- `MemTableInserter::PutCF`. -/
def putCF (cfId : UInt32) (key value : Bytes) : InserterState → Status × InserterState :=
  countedCallback env cfId (fun trx => (WriteBatchInternal.put trx cfId key value).1)
    fun cf st => (.ok, checkMemtableFull env cfId (putValue env cfId key value cf st).bump)

/-- `DeleteImpl`: an entry of type `type` at the current sequence number. -/
def deleteImpl (cfId : UInt32) (key value : Bytes) (type : ValueType) (st : InserterState) :
    Status × InserterState :=
  (.ok, checkMemtableFull env cfId (st.emit (.add cfId st.sequence type key value)).bump)

/-- `MemTableInserter::DeleteCF`. -/
def deleteCF (cfId : UInt32) (key : Bytes) : InserterState → Status × InserterState :=
  countedCallback env cfId (fun trx => (WriteBatchInternal.delete trx cfId key).1)
    fun _ => deleteImpl env cfId key [] .kTypeDeletion

/-- `MemTableInserter::SingleDeleteCF`. -/
def singleDeleteCF (cfId : UInt32) (key : Bytes) : InserterState → Status × InserterState :=
  countedCallback env cfId (fun trx => (WriteBatchInternal.singleDelete trx cfId key).1)
    fun _ => deleteImpl env cfId key [] .kTypeSingleDeletion

/-- `MemTableInserter::DeleteRangeCF`: with a DB, a column family whose table type cannot
hold range deletions refuses it, without consuming a sequence number. -/
def deleteRangeCF (cfId : UInt32) (beginKey endKey : Bytes) :
    InserterState → Status × InserterState :=
  countedCallback env cfId
    (fun trx => (WriteBatchInternal.deleteRange trx cfId beginKey endKey).1)
    fun cf st =>
      if env.hasDb ∧ cf.deleteRangeSupported = false then
        (.notSupported ("DeleteRange not supported for table type " ++ cf.tableFactoryName ++
          " in CF " ++ cf.name), st)
      else deleteImpl env cfId beginKey endKey .kTypeRangeDeletion st

/-- The memtable write of `MergeCF`: with a DB, outside recovery, when the memtable holds
at least `max_successive_merges` merges at the head of the key, the operand is folded onto
the value `Get` leaves (whatever its status) and the result added as a value; when the
merge fails, or without folding, the operand is added as a merge. -/
def mergeValue (cfId : UInt32) (key value : Bytes) (cf : ColumnFamily) (st : InserterState) :
    InserterState :=
  let performMerge := 0 < cf.maxSuccessiveMerges ∧ env.hasDb ∧ env.recoveringLogNumber = 0 ∧
    cf.maxSuccessiveMerges ≤ env.countSuccessiveMergeEntries cfId st.sequence key
  match if performMerge then cf.fullMerge key (env.dbGet cfId st.sequence key).2 value
      else none with
  | some newValue => st.emit (.add cfId st.sequence .kTypeValue key newValue)
  | none => st.emit (.add cfId st.sequence .kTypeMerge key value)

/-- `MemTableInserter::MergeCF`. -/
def mergeCF (cfId : UInt32) (key value : Bytes) : InserterState → Status × InserterState :=
  countedCallback env cfId (fun trx => (WriteBatchInternal.merge trx cfId key value).1)
    fun cf st => (.ok, checkMemtableFull env cfId (mergeValue env cfId key value cf st).bump)

/-- `MemTableInserter::MarkBeginPrepare`: in recovery, a new batch to rebuild the prepare
section into, refused when the DB does not allow 2PC; otherwise nothing. -/
def markBeginPrepare (st : InserterState) : Status × InserterState :=
  let st := (st.check st.rebuildingTrx.isNone "rebuilding_trx_ == nullptr").check env.hasDb "db_"
  if env.recoveringLogNumber ≠ 0 then
    if env.allow2pc then
      (.ok, { st with rebuildingTrx := some (WriteBatch.new 0), hasValidWrites := true })
    else (.notSupported "WAL contains prepared transactions. Open with TransactionDB::Open().", st)
  else (.ok, st.check (0 < st.logNumberRef) "log_number_ref_ > 0")

/-- `MemTableInserter::MarkEndPrepare`: in recovery, the rebuilt batch goes to the DB's
table under `name`, with the log being recovered; otherwise nothing. -/
def markEndPrepare (name : Bytes) (st : InserterState) : Status × InserterState :=
  let st := (st.check env.hasDb "db_").check
    (st.rebuildingTrx.isSome == (env.recoveringLogNumber != 0))
    "(rebuilding_trx_ != nullptr) == (recovering_log_number_ != 0)"
  if env.recoveringLogNumber ≠ 0 then
    let st := st.check env.allow2pc "db_->allow_2pc()"
    (.ok, { st with
      recovered := insertRecoveredTransaction env.recoveringLogNumber name st.rebuildingTrx
        st.recovered
      rebuildingTrx := none })
  else
    (.ok, (st.check st.rebuildingTrx.isNone "rebuilding_trx_ == nullptr").check
      (0 < st.logNumberRef) "log_number_ref_ > 0")

/-- `MemTableInserter::MarkCommit`: in recovery, a transaction of the table is replayed by
`replay` with its log bound, and leaves the table when the replay succeeds; otherwise, or
for an xid not in the table, nothing. A transaction without a batch is a null dereference
in the source: it is recorded as a failed check, and nothing is replayed. -/
def markCommit (replay : WriteBatch → InserterState → Status × InserterState) (name : Bytes)
    (st : InserterState) : Status × InserterState :=
  let st := st.check env.hasDb "db_"
  if env.recoveringLogNumber ≠ 0 then
    match st.recovered name with
    | none => (.ok, st)
    | some trx =>
        let st := st.check (st.logNumberRef == 0) "log_number_ref_ == 0"
        match trx.batch with
        | none => (.ok, st.check false "trx->batch_ != nullptr")
        | some batch =>
            let (s, st) := replay batch { st with logNumberRef := trx.logNumber }
            let st := { st with logNumberRef := 0 }
            let st := if s = .ok then
                { st with recovered := deleteRecoveredTransaction name st.recovered }
              else st
            (s, { st with hasValidWrites := true })
  else (.ok, st)

/-- `MemTableInserter::MarkRollback`: in recovery, the transaction leaves the table. -/
def markRollback (name : Bytes) (st : InserterState) : Status × InserterState :=
  let st := st.check env.hasDb "db_"
  if env.recoveringLogNumber ≠ 0 ∧ (st.recovered name).isSome then
    (.ok, { st with recovered := deleteRecoveredTransaction name st.recovered })
  else (.ok, st)

/-- The inserter as a handler, with `replay` the `Iterate` of a recovered transaction.
`LogData` and `Continue` are the defaults of `WriteBatch::Handler`. -/
def handlerWith (replay : WriteBatch → InserterState → Status × InserterState) :
    Handler InserterState where
  putCF := putCF env
  deleteCF := deleteCF env
  singleDeleteCF := singleDeleteCF env
  deleteRangeCF := deleteRangeCF env
  mergeCF := mergeCF env
  logData _ st := st
  markBeginPrepare := markBeginPrepare env
  markEndPrepare := markEndPrepare env
  markCommit := markCommit env replay
  markRollback := markRollback env
  «continue» st := (true, st)

@[simp] theorem handlerWith_continue (replay : WriteBatch → InserterState → Status × InserterState)
    (st : InserterState) : (handlerWith env replay).continue st = (true, st) := rfl

end MemTableInserter

/-- `MemTableInserter` over `env`, replaying recovered transactions nested up to `depth`
deep. -/
def memTableInserter (env : Env) : Nat → Handler InserterState
  | 0 => MemTableInserter.handlerWith env fun _ st =>
      (.notSupported "recovered transaction replayed below the nesting depth", st)
  | depth + 1 => MemTableInserter.handlerWith env fun batch st =>
      batch.iterate (memTableInserter env depth) st

/-! ## Inserting batches -/

/-- A writer of a write group, as `InsertInto` sees it. -/
structure Writer where
  batch : WriteBatch
  /-- `log_ref`: the log that holds the writer's prepare section, or `0`. -/
  logRef : Nat
  shouldWriteToMemtable : Bool
  status : Status

namespace WriteBatchInternal

/-- The loop of `InsertInto(write_group, ...)` from the inserter's state `st`: each writer
that writes to the memtable gets the inserter's sequence in its batch's header, its log
bound, and the status of iterating its batch; the loop stops at the first failure. -/
def insertIntoGroup (env : Env) (depth : Nat) : List Writer → InserterState →
    Status × List Writer × InserterState
  | [], st => (.ok, [], st)
  | w :: ws, st =>
      if w.shouldWriteToMemtable then
        let batch := w.batch.setSequence st.sequence
        let (s, st) := batch.iterate (memTableInserter env depth) { st with logNumberRef := w.logRef }
        let w := { w with batch := batch, status := s }
        if s = .ok then
          let (s, ws, st) := insertIntoGroup env depth ws st
          (s, w :: ws, st)
        else (s, w :: ws, st)
      else
        let (s, ws, st) := insertIntoGroup env depth ws st
        (s, w :: ws, st)

/-- `InsertInto(write_group, sequence, ...)` over the DB's table `table`. -/
def insertInto (env : Env) (depth : Nat) (writers : List Writer) (sequence : UInt64)
    (table : RecoveredTable) : Status × List Writer × InserterState :=
  insertIntoGroup env depth writers (InserterState.start sequence table)

/-- `InsertInto(writer, sequence, ...)`. -/
def insertIntoWriter (env : Env) (depth : Nat) (w : Writer) (sequence : UInt64)
    (table : RecoveredTable) : Status × Writer × InserterState :=
  let batch := w.batch.setSequence sequence
  let st := (InserterState.start sequence table).check w.shouldWriteToMemtable
    "writer->ShouldWriteToMemtable()"
  let (s, st) := batch.iterate (memTableInserter env depth) { st with logNumberRef := w.logRef }
  (s, { w with batch := batch }, st)

/-- `InsertInto(batch, ...)`: the inserter starts at the batch's sequence; its final
sequence is what the source writes to `last_seq_used`, and `hasValidWrites` what it
writes to `has_valid_writes`. -/
def insertIntoBatch (env : Env) (depth : Nat) (batch : WriteBatch) (table : RecoveredTable) :
    Status × InserterState :=
  batch.iterate (memTableInserter env depth) (InserterState.start batch.sequence table)

end WriteBatchInternal

end RocksBatch
