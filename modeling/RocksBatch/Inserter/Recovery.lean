import RocksBatch.Inserter.Sequencing
import RocksBatch.Properties.RoundTrip

set_option autoImplicit false

/-! # Recovering prepared transactions

During recovery (`recovering_log_number_ = L ≠ 0`) the inserter does not apply a prepare
section: `MarkBeginPrepare` opens a batch to rebuild, every counted record of the section is
appended to it instead of to a memtable, and `MarkEndPrepare(x)` hands it to the DB's table
of recovered transactions under `x`, with the log `L`. When a later batch reaches `Commit(x)`,
`MarkCommit` replays the rebuilt batch through the inserter itself, with the log `L` bound.

* `iterate_prepareSection`: a batch that is one prepare section is iterated without a sequence
  number or a memtable call; the DB's table gains `rebuiltBatch rs`.
* `rebuiltBatch_reads`: the rebuilt batch reads back as the counted records of the section.
* `iterate_normal_eq`: on column families without in-place updates or merge folding, whose
  log numbers do not pass the one recovered, a batch without 2PC markers is iterated in
  recovery mode exactly as in normal mode.
* `markCommit_recovery`: `MarkCommit` returns and leaves what the replay does.
* `recovery_replays_prepared`: together, the replay at the commit marker of a recovered
  prepare section is the normal-mode insertion of its records.

The inserter takes the markers of a batch to alternate, starting with `BeginPrepare`; an
`Append` of a sealed prepared batch to a batch that is sealed afterwards breaks this, and
recovering such a batch fails two of the inserter's assertions and hands the DB a
transaction without a batch (`nestedPrepare_unbracketed`).
-/

namespace RocksBatch

open MemTableInserter

/-- The 2PC markers: the records whose callbacks open, close, commit or roll back a
prepared transaction. -/
def Record.IsMarker : Record → Bool
  | .beginPrepare | .endPrepare _ | .commit _ | .rollback _ => true
  | _ => false

theorem Record.isMarker_of_isCounted {r : Record} (h : r.IsCounted = true) : r.IsMarker = false := by
  cases r <;> first | rfl | cases h

/-- The appends a record of a prepare section makes on the rebuilt batch: each counted
callback calls the `WriteBatchInternal` append of its kind; the others make none. -/
def Record.rebuildOps : Record → List Op
  | .put cf k v => [.append (.put cf k v)]
  | .delete cf k => [.append (.delete cf k)]
  | .singleDelete cf k => [.append (.singleDelete cf k)]
  | .deleteRange cf b e => [.append (.deleteRange cf b e)]
  | .merge cf k v => [.append (.merge cf k v)]
  | _ => []

/-- The batch that a prepare section whose records are `rs` is rebuilt into. -/
def rebuiltBatch (rs : List Record) : WriteBatch :=
  build (WriteBatch.new 0) (rs.flatMap Record.rebuildOps)

/-! ## The rebuilt batch -/

theorem Record.mem_rebuildOps {r : Record} {op : Op} (h : op ∈ r.rebuildOps) :
    ∃ a, op = .append a ∧ a.record = r := by
  cases r <;> simp only [Record.rebuildOps, List.mem_singleton, List.not_mem_nil] at h <;>
    exact ⟨_, h, rfl⟩

theorem Record.rebuildOps_records (r : Record) :
    r.rebuildOps.flatMap Op.records = if r.IsCounted then [r] else [] := by
  cases r <;> rfl

theorem flatMap_rebuildOps_records (rs : List Record) :
    (rs.flatMap Record.rebuildOps).flatMap Op.records = rs.filter Record.IsCounted := by
  induction rs with
  | nil => rfl
  | cons r rs ih =>
      rw [List.flatMap_cons, List.flatMap_append, ih, r.rebuildOps_records, List.filter_cons]
      split <;> rfl

theorem rebuiltBatch_holds (rs : List Record) :
    HoldsOver .encoded 0 [] [] [] (rebuiltBatch rs) (rs.filter Record.IsCounted) := by
  have hops : ∀ op ∈ rs.flatMap Record.rebuildOps, op.Builds ∧ op.isMarkEndPrepare = false := by
    simp only [List.mem_flatMap]
    rintro op ⟨r, -, hop⟩
    obtain ⟨a, rfl, -⟩ := Record.mem_rebuildOps hop
    exact ⟨trivial, rfl⟩
  have h := (HoldsOver.new .encoded 0).build rfl (fun op h => (hops op h).1)
    (List.countP_eq_zero.mpr fun op h => by simp [(hops op h).2])
  simpa [rebuiltBatch, flatMap_rebuildOps_records] using h.1

/-- **The rebuilt batch reads back as the counted records** of the section, in order; with
fewer than `2^31` of them `Iterate` makes their calls, with their column families, keys and
values. -/
theorem rebuiltBatch_reads {rs : List Record} (hs : ∀ r ∈ rs, r.Small)
    (hc : countCounted rs < 2 ^ 31) :
    Parses ((rebuiltBatch rs).rep.drop kHeader) (rs.filter Record.IsCounted) ∧
      (rebuiltBatch rs).iterate recorder [] =
        (.ok, (rs.filter Record.IsCounted).filterMap Record.call) := by
  have h := rebuiltBatch_holds rs
  have hp : Parses ((rebuiltBatch rs).rep.drop kHeader) (rs.filter Record.IsCounted) := by
    rw [show _ = encodeRecords _ from h.reads]
    exact parses_encodeRecords fun r hr => hs r (List.mem_of_mem_filter hr)
  have hcc : countCounted (rs.filter Record.IsCounted) = countCounted rs := by
    simp [countCounted, List.filter_filter]
  exact ⟨hp, iterate_recorder h.rep_eq hp (by rwa [hcc])⟩

/-! ## A prepare section in recovery -/

section Rebuilding

variable {env : Env} {replay : WriteBatch → InserterState → Status × InserterState}

/-- **A record of a prepare section being rebuilt**, in either mode: a counted record is
appended to the rebuilt batch, without a sequence number; `LogData` and `Noop` change
nothing. -/
theorem dispatch_rebuilding {r : Record} (hr : r.IsMarker = false) {st : InserterState}
    {trx : WriteBatch} (hst : st.rebuildingTrx = some trx) :
    (handlerWith env replay).dispatch r st =
      (.ok, if r.IsCounted then 1 else 0,
        { st with rebuildingTrx := some (build trx r.rebuildOps) }) := by
  obtain ⟨_, _, _, _, _, _, _⟩ := st
  cases hst
  cases r <;> first | rfl | cases hr

/-- A stretch of a prepare section being rebuilt: its counted records are appended to the
rebuilt batch, and nothing else changes. -/
theorem runRecords_rebuilding : ∀ {rs : List Record} (ss : List Record) (found : Nat)
    {st : InserterState} {trx : WriteBatch}, (∀ r ∈ rs, r.IsMarker = false) →
    st.rebuildingTrx = some trx →
    (handlerWith env replay).runRecords (rs ++ ss) found st =
      (handlerWith env replay).runRecords ss (found + countCounted rs)
        { st with rebuildingTrx := some (build trx (rs.flatMap Record.rebuildOps)) }
  | [], ss, found, st, trx, _, hst => by
      simp only [List.nil_append, countCounted_nil, Nat.add_zero, List.flatMap_nil, build, ← hst]
  | r :: rs, ss, found, st, trx, hrs, hst => by
      rw [List.cons_append, Handler.runRecords, handlerWith_continue]
      dsimp only
      rw [dispatch_rebuilding (hrs r (List.mem_cons_self _ _)) hst]
      dsimp only
      rw [runRecords_rebuilding ss _ (fun r' h => hrs r' (List.mem_cons_of_mem _ h)) rfl]
      simp only [List.flatMap_cons, build_append, countCounted_cons, Nat.add_assoc]

end Rebuilding

section Prepare

variable {env : Env} (hL : env.recoveringLogNumber ≠ 0) (h2pc : env.allow2pc = true)
  (hdb : env.hasDb = true) (replay : WriteBatch → InserterState → Status × InserterState)
include hL h2pc hdb

theorem dispatch_beginPrepare_recovery {st : InserterState} (hst : st.rebuildingTrx = none) :
    (handlerWith env replay).dispatch .beginPrepare st =
      (.ok, 0, { st with rebuildingTrx := some (WriteBatch.new 0), hasValidWrites := true }) := by
  simp [Handler.dispatch, handlerWith, markBeginPrepare, hL, h2pc, hdb, hst]

theorem dispatch_endPrepare_recovery (xid : Bytes) {st : InserterState} {trx : WriteBatch}
    (hst : st.rebuildingTrx = some trx) :
    (handlerWith env replay).dispatch (.endPrepare xid) st =
      (.ok, 0, { st with
        recovered := insertRecoveredTransaction env.recoveringLogNumber xid (some trx) st.recovered
        rebuildingTrx := none }) := by
  have hr : (env.recoveringLogNumber != 0) = true := by simpa using hL
  simp [Handler.dispatch, handlerWith, markEndPrepare, hL, h2pc, hdb, hst, hr]

omit replay in
/-- **A prepare section in recovery**: iterating a batch that is one prepare section, with
no marker between its two and the header counting its counted records, returns OK, consumes
no sequence number and calls no memtable; it only adds the rebuilt batch to the DB's table,
under the xid and with the log being recovered. -/
theorem iterate_prepareSection {P : WriteBatch} {rs : List Record} {xid : Bytes}
    (hp : Parses (P.rep.drop kHeader) (.beginPrepare :: (rs ++ [.endPrepare xid])))
    (hrs : ∀ r ∈ rs, r.IsMarker = false) (hc : P.count = countCounted rs) (depth : Nat)
    {st : InserterState} (hst : st.rebuildingTrx = none) :
    P.iterate (memTableInserter env depth) st =
      (.ok, { st with
        hasValidWrites := true
        recovered := insertRecoveredTransaction env.recoveringLogNumber xid
          (some (rebuiltBatch rs)) st.recovered }) := by
  obtain ⟨replay, hi⟩ := memTableInserter_eq env depth
  rw [hi]
  refine WriteBatch.iterate_of_runRecords hp (List.cons_ne_nil _ _) ?_ hc.symm
  rw [Handler.runRecords, handlerWith_continue]
  dsimp only
  rw [dispatch_beginPrepare_recovery hL h2pc hdb replay hst]
  dsimp only
  rw [runRecords_rebuilding [.endPrepare xid] 0 hrs rfl, Handler.runRecords, handlerWith_continue]
  dsimp only
  rw [dispatch_endPrepare_recovery hL h2pc hdb replay xid]
  swap
  · rfl
  obtain ⟨_, _, _, _, _, _, _⟩ := st
  cases hst
  simp [Handler.runRecords, rebuiltBatch]

end Prepare

/-! ## Replaying a committed transaction -/

/-- Column families that recovery writes to as a normal insertion does: without in-place
updates or merge folding, and with log numbers that do not pass the one being recovered. -/
def Env.PlainFamilies (env : Env) : Prop :=
  ∀ cfId cf, env.columnFamily cfId = some cf →
    cf.inplaceUpdateSupport = false ∧ cf.maxSuccessiveMerges = 0 ∧
      cf.logNumber ≤ env.recoveringLogNumber

theorem plainFamilies_plain (recoveringLogNumber : Nat) :
    (Env.plain recoveringLogNumber).PlainFamilies := by
  intro cfId cf h
  simp only [Env.plain] at h
  split at h <;> cases h
  exact ⟨rfl, rfl, Nat.zero_le _⟩

section Normal

variable {env : Env} (hcf : env.PlainFamilies)
include hcf

theorem seekToColumnFamily_normal (cfId : UInt32) (st : InserterState) :
    seekToColumnFamily { env with recoveringLogNumber := 0 } cfId st =
      seekToColumnFamily env cfId st := by
  unfold seekToColumnFamily
  dsimp only
  cases h : env.columnFamily cfId with
  | none => rfl
  | some cf => simp [Nat.not_lt.mpr (hcf cfId cf h).2.2]

theorem countedCallback_normal {cfId : UInt32} {rebuild : WriteBatch → WriteBatch}
    {write write' : ColumnFamily → InserterState → Status × InserterState}
    (hw : ∀ cf, env.columnFamily cfId = some cf → ∀ st, write' cf st = write cf st)
    (st : InserterState) :
    countedCallback { env with recoveringLogNumber := 0 } cfId rebuild write' st =
      countedCallback env cfId rebuild write st := by
  unfold countedCallback
  rw [seekToColumnFamily_normal hcf]
  rcases seekToColumnFamily_cases env cfId st with ⟨s, hs⟩ | ⟨cf, st', -, hc, hs, -⟩ <;>
    rw [hs]
  dsimp only
  rw [hw cf hc st']

/-- Outside the 2PC markers, each callback of the inserter in recovery mode is that of
normal mode. -/
theorem dispatch_normal (replay replay' : WriteBatch → InserterState → Status × InserterState)
    {r : Record} (hr : r.IsMarker = false) (st : InserterState) :
    (handlerWith { env with recoveringLogNumber := 0 } replay').dispatch r st =
      (handlerWith env replay).dispatch r st := by
  cases r with
  | put cf k v =>
      have h : putCF { env with recoveringLogNumber := 0 } cf k v st = putCF env cf k v st :=
        countedCallback_normal hcf (fun c hc _ => by simp only [putValue, (hcf cf c hc).1]; rfl) st
      simp only [Handler.dispatch, handlerWith, h]
  | merge cf k v =>
      have h : mergeCF { env with recoveringLogNumber := 0 } cf k v st = mergeCF env cf k v st :=
        countedCallback_normal hcf (fun c hc _ => by simp [mergeValue, (hcf cf c hc).2.1]; rfl) st
      simp only [Handler.dispatch, handlerWith, h]
  | delete cf k =>
      have h : deleteCF { env with recoveringLogNumber := 0 } cf k st = deleteCF env cf k st :=
        countedCallback_normal hcf (fun _ _ _ => by rfl) st
      simp only [Handler.dispatch, handlerWith, h]
  | singleDelete cf k =>
      have h : singleDeleteCF { env with recoveringLogNumber := 0 } cf k st =
          singleDeleteCF env cf k st :=
        countedCallback_normal hcf (fun _ _ _ => by rfl) st
      simp only [Handler.dispatch, handlerWith, h]
  | deleteRange cf b e =>
      have h : deleteRangeCF { env with recoveringLogNumber := 0 } cf b e st =
          deleteRangeCF env cf b e st :=
        countedCallback_normal hcf (fun _ _ _ => by rfl) st
      simp only [Handler.dispatch, handlerWith, h]
  | logData | noop => simp only [Handler.dispatch, handlerWith]
  | _ => cases hr

/-- **Recovery applies a batch without markers as normal mode does**: on column families
without in-place updates or merge folding, whose log numbers do not pass the one being
recovered, iterating a batch whose records are no 2PC markers makes the same calls, at the
same sequence numbers, and returns the same status in both modes. -/
theorem iterate_normal_eq {b : WriteBatch} {rs : List Record} (hp : Parses (b.rep.drop kHeader) rs)
    (hrs : ∀ r ∈ rs, r.IsMarker = false) (depth depth' : Nat) (st : InserterState) :
    b.iterate (memTableInserter { env with recoveringLogNumber := 0 } depth') st =
      b.iterate (memTableInserter env depth) st := by
  obtain ⟨replay, hi⟩ := memTableInserter_eq env depth
  obtain ⟨replay', hi'⟩ := memTableInserter_eq { env with recoveringLogNumber := 0 } depth'
  rw [hi, hi']
  exact WriteBatch.iterate_congr hp (Handler.runRecords_congr (fun _ => by rfl)
    (fun r hr st => dispatch_normal hcf replay replay' (hrs r hr) st) 0 st)

end Normal

/-- `MarkCommit` in recovery of a transaction of the table that has a batch, with no log
bound: it returns the status of the replay of the batch with the transaction's log bound,
and keeps its calls and sequence. -/
theorem markCommit_recovery {env : Env} (hL : env.recoveringLogNumber ≠ 0)
    (hdb : env.hasDb = true) (replay : WriteBatch → InserterState → Status × InserterState)
    {xid : Bytes} {st : InserterState} {log : Nat} {T : WriteBatch} (hlog : st.logNumberRef = 0)
    (htrx : st.recovered xid = some ⟨log, some T⟩) :
    (markCommit env replay xid st).1 = (replay T { st with logNumberRef := log }).1 ∧
      (markCommit env replay xid st).2.effects =
        (replay T { st with logNumberRef := log }).2.effects ∧
      (markCommit env replay xid st).2.sequence =
        (replay T { st with logNumberRef := log }).2.sequence := by
  have hc : st.check (st.logNumberRef == 0) "log_number_ref_ == 0" = st := by rw [hlog]; rfl
  simp only [markCommit, hdb, InserterState.check_true, if_pos hL, htrx, hc]
  rcases replay T { st with logNumberRef := log } with ⟨s, st'⟩
  by_cases hs : s = .ok <;> simp [hs]

/-! ## The two runs -/

/-- **Recovery replays a prepared transaction as a normal insertion.** In recovery of the
log `L` on a DB that allows 2PC, iterating a batch that is one prepare section
`BeginPrepare, rs, EndPrepare(x)`, no marker among `rs`, returns OK without a sequence
number or a memtable call, and adds to the DB's table, under `x` and with `L`, the rebuilt
batch, which reads back as the counted records of `rs` in order. When a later recovery, on
plain column families, reaches `Commit(x)` with no log bound and the table still holding
that entry, `MarkCommit` returns the status, makes the calls and reaches the sequence of the
normal-mode insertion of the rebuilt batch with `L` bound, from the same state. -/
theorem recovery_replays_prepared {env : Env} (hL : env.recoveringLogNumber ≠ 0)
    (h2pc : env.allow2pc = true) (hdb : env.hasDb = true) {P : WriteBatch} {rs : List Record}
    {xid : Bytes} (hp : Parses (P.rep.drop kHeader) (.beginPrepare :: (rs ++ [.endPrepare xid])))
    (hrs : ∀ r ∈ rs, r.IsMarker = false) (hc : P.count = countCounted rs) (depth : Nat)
    {st : InserterState} (hst : st.rebuildingTrx = none) {env' : Env}
    (hL' : env'.recoveringLogNumber ≠ 0) (hdb' : env'.hasDb = true) (hcf : env'.PlainFamilies)
    (depth' : Nat) {st' : InserterState} (hlog : st'.logNumberRef = 0)
    (htrx : st'.recovered xid = (P.iterate (memTableInserter env depth) st).2.recovered xid) :
    P.iterate (memTableInserter env depth) st =
        (.ok, { st with
          hasValidWrites := true
          recovered := insertRecoveredTransaction env.recoveringLogNumber xid
            (some (rebuiltBatch rs)) st.recovered }) ∧
      Parses ((rebuiltBatch rs).rep.drop kHeader) (rs.filter Record.IsCounted) ∧
      (rebuiltBatch rs).iterate recorder [] =
        (.ok, (rs.filter Record.IsCounted).filterMap Record.call) ∧
      ((memTableInserter env' (depth' + 1)).markCommit xid st').1 =
        ((rebuiltBatch rs).iterate (memTableInserter { env' with recoveringLogNumber := 0 } depth')
          { st' with logNumberRef := env.recoveringLogNumber }).1 ∧
      ((memTableInserter env' (depth' + 1)).markCommit xid st').2.effects =
        ((rebuiltBatch rs).iterate (memTableInserter { env' with recoveringLogNumber := 0 } depth')
          { st' with logNumberRef := env.recoveringLogNumber }).2.effects ∧
      ((memTableInserter env' (depth' + 1)).markCommit xid st').2.sequence =
        ((rebuiltBatch rs).iterate (memTableInserter { env' with recoveringLogNumber := 0 } depth')
          { st' with logNumberRef := env.recoveringLogNumber }).2.sequence := by
  have hP := iterate_prepareSection hL h2pc hdb hp hrs hc depth hst
  have hs : ∀ r ∈ rs, r.Small := fun r hr =>
    hp.small r (List.mem_cons_of_mem _ (List.mem_append_left _ hr))
  obtain ⟨hT, hrec⟩ := rebuiltBatch_reads hs (eq_toUInt32_of_toInt32_eq hc).2
  have htrx' : st'.recovered xid = some ⟨env.recoveringLogNumber, some (rebuiltBatch rs)⟩ := by
    simp [htrx, hP, insertRecoveredTransaction]
  rw [iterate_normal_eq hcf hT (fun r hr => hrs r (List.mem_of_mem_filter hr)) depth' depth']
  exact ⟨hP, hT, hrec, markCommit_recovery hL' hdb' _ hlog htrx'⟩

/-- A prepared batch on the default column family: its `Noop`, a `Put`, a blob and the
seal `[9]`. -/
def preparedPut : WriteBatch :=
  build (WriteBatch.new 0)
    [.insertNoop, .append (.put 0 [1] [2]), .append (.putLogData [3]), .markEndPrepare [9]]

theorem holdsOver_preparedPut :
    HoldsOver .encoded 0 [] [] [] preparedPut
      [.beginPrepare, .put 0 [1] [2], .logData [3], .endPrepare [9]] :=
  holdsOver_build (by simp [Op.Builds]) (.inr ⟨rfl, rfl⟩)

/-- The table after recovering `preparedPut` from the log `1`. -/
def committable : RecoveredTable :=
  insertRecoveredTransaction 1 [9] (some (rebuiltBatch [.put 0 [1] [2], .logData [3]])) fun _ => none

theorem recovery_replays_preparedPut :
    (Env.plain 1).recoveringLogNumber ≠ 0 ∧ (Env.plain 1).allow2pc = true ∧
      (Env.plain 1).hasDb = true ∧
      Parses (preparedPut.rep.drop kHeader)
        (.beginPrepare :: ([.put 0 [1] [2], .logData [3]] ++ [.endPrepare [9]])) ∧
      (∀ r ∈ [Record.put 0 [1] [2], .logData [3]], r.IsMarker = false) ∧
      preparedPut.count = countCounted [.put 0 [1] [2], .logData [3]] ∧
      (InserterState.start 3 fun _ => none).rebuildingTrx = none ∧
      (Env.plain 2).recoveringLogNumber ≠ 0 ∧ (Env.plain 2).hasDb = true ∧
      (Env.plain 2).PlainFamilies ∧ (InserterState.start 7 committable).logNumberRef = 0 ∧
      (InserterState.start 7 committable).recovered [9] =
        (preparedPut.iterate (memTableInserter (Env.plain 1) 0)
          (InserterState.start 3 fun _ => none)).2.recovered [9] ∧
      (preparedPut.iterate (memTableInserter (Env.plain 1) 0) (InserterState.start 3 fun _ => none) =
        (.ok, { InserterState.start 3 fun _ => none with
          hasValidWrites := true
          recovered := insertRecoveredTransaction (Env.plain 1).recoveringLogNumber [9]
            (some (rebuiltBatch [.put 0 [1] [2], .logData [3]]))
            (InserterState.start 3 fun _ => none).recovered }) ∧
      Parses ((rebuiltBatch [.put 0 [1] [2], .logData [3]]).rep.drop kHeader)
        ([Record.put 0 [1] [2], .logData [3]].filter Record.IsCounted) ∧
      (rebuiltBatch [.put 0 [1] [2], .logData [3]]).iterate recorder [] =
        (.ok, ([Record.put 0 [1] [2], .logData [3]].filter Record.IsCounted).filterMap
          Record.call) ∧
      ((memTableInserter (Env.plain 2) 1).markCommit [9] (InserterState.start 7 committable)).1 =
        ((rebuiltBatch [.put 0 [1] [2], .logData [3]]).iterate
          (memTableInserter { Env.plain 2 with recoveringLogNumber := 0 } 0)
          { InserterState.start 7 committable with
            logNumberRef := (Env.plain 1).recoveringLogNumber }).1 ∧
      ((memTableInserter (Env.plain 2) 1).markCommit [9]
          (InserterState.start 7 committable)).2.effects =
        ((rebuiltBatch [.put 0 [1] [2], .logData [3]]).iterate
          (memTableInserter { Env.plain 2 with recoveringLogNumber := 0 } 0)
          { InserterState.start 7 committable with
            logNumberRef := (Env.plain 1).recoveringLogNumber }).2.effects ∧
      ((memTableInserter (Env.plain 2) 1).markCommit [9]
          (InserterState.start 7 committable)).2.sequence =
        ((rebuiltBatch [.put 0 [1] [2], .logData [3]]).iterate
          (memTableInserter { Env.plain 2 with recoveringLogNumber := 0 } 0)
          { InserterState.start 7 committable with
            logNumberRef := (Env.plain 1).recoveringLogNumber }).2.sequence) := by
  have hp : Parses (preparedPut.rep.drop kHeader)
      (.beginPrepare :: ([.put 0 [1] [2], .logData [3]] ++ [.endPrepare [9]])) := by
    rw [show _ = encodeRecords _ from holdsOver_preparedPut.reads]
    exact parses_encodeRecords (by decide)
  have hrs : ∀ r ∈ [Record.put 0 [1] [2], .logData [3]], r.IsMarker = false := by decide
  have hc : preparedPut.count = countCounted [.put 0 [1] [2], .logData [3]] := by
    rw [preparedPut.count_headerRep _ _ _ holdsOver_preparedPut.rep_eq, toInt32_toUInt32 (by decide)]
    rfl
  have htrx : (InserterState.start 7 committable).recovered [9] =
      (preparedPut.iterate (memTableInserter (Env.plain 1) 0)
        (InserterState.start 3 fun _ => none)).2.recovered [9] := by
    rw [iterate_prepareSection (by decide) rfl rfl hp hrs hc 0 rfl]
    rfl
  exact ⟨by decide, rfl, rfl, hp, hrs, hc, rfl, by decide, rfl, plainFamilies_plain 2, rfl, htrx,
    recovery_replays_prepared (by decide) rfl rfl hp hrs hc 0 rfl (by decide) rfl
      (plainFamilies_plain 2) 0 rfl htrx⟩

/-! ## Prepare sections that nest -/

/-- A prepare section nested in another: a fresh batch gets its `Noop`, then the whole of the
prepared batch built by `preparedOps` by `Append`, and is sealed with the xid `[8]`. -/
def nestedPrepare : WriteBatch :=
  (Op.markEndPrepare [8]).apply
    (WriteBatchInternal.append (Op.insertNoop.apply (WriteBatch.new 0))
      (build (WriteBatch.new 0) preparedOps) false).1

/-- The records of `nestedPrepare`. -/
def nestedPrepareRecords : List Record :=
  [.beginPrepare, .beginPrepare, .put 5 [1] [2], .logData [3], .endPrepare [9], .endPrepare [8]]

theorem holds_preparedOps :
    Holds .encoded (build (WriteBatch.new 0) preparedOps) (buildRecords preparedOps) :=
  ⟨0, holdsOver_build (by simp [preparedOps, Op.Builds]) (.inr ⟨rfl, rfl⟩)⟩

theorem holdsOver_nestedPrepare :
    HoldsOver .encoded 0 [] [] [] nestedPrepare nestedPrepareRecords :=
  (((HoldsOver.new .encoded 0).insertNoop).append holds_preparedOps (.inl rfl)).buildSeal [8]

theorem reachable_preparedOps :
    Reachable Fresh (fun op _ => op.Small) (fun _ w => w = false)
      (build (WriteBatch.new 0) preparedOps) := by
  have h3 : HoldsOver .encoded 0 [] [] []
      (build (WriteBatch.new 0) [.insertNoop, .append (.put 5 [1] [2]), .append (.putLogData [3])])
      [.noop, .put 5 [1] [2], .logData [3]] :=
    ((HoldsOver.new .encoded 0).build rfl (by simp [Op.Builds]) (by rfl)).1
  exact .step (.markEndPrepare [9]) (.step _ (.step _ (.step _ (.start ⟨0, rfl⟩) trivial
    (by decide)) trivial (by decide)) trivial (by decide))
    (h3.markEndPrepare_enabled [9]) (by decide)

/-- **Prepare markers nest in a reachable batch.** `nestedPrepare` is built from fresh
batches by `InsertNoop`, an `Append` of a whole prepared batch and `MarkEndPrepare` on its
`Noop`; its payload reads as two `BeginPrepare` records, then two `EndPrepare` records.
Recovering it returns OK after two failed assertions of the inserter, and the transaction
`[8]` of the outer section is handed to the DB without a batch. -/
theorem nestedPrepare_unbracketed :
    Reachable Fresh (fun op _ => op.Small) (fun _ w => w = false) nestedPrepare ∧
      Parses (nestedPrepare.rep.drop kHeader) nestedPrepareRecords ∧
      (nestedPrepare.iterate (memTableInserter (Env.plain 1) 0)
        (InserterState.start 0 fun _ => none)).1 = .ok ∧
      (nestedPrepare.iterate (memTableInserter (Env.plain 1) 0)
        (InserterState.start 0 fun _ => none)).2.failedAsserts =
        ["rebuilding_trx_ == nullptr",
          "(rebuilding_trx_ != nullptr) == (recovering_log_number_ != 0)"] ∧
      ((nestedPrepare.iterate (memTableInserter (Env.plain 1) 0)
        (InserterState.start 0 fun _ => none)).2.recovered [8]).map RecoveredTransaction.batch =
        some none := by
  have h := holdsOver_nestedPrepare
  have hp : Parses (nestedPrepare.rep.drop kHeader) nestedPrepareRecords := by
    rw [show _ = encodeRecords _ from h.reads]
    exact parses_encodeRecords (by decide)
  have hr : Reachable Fresh (fun op _ => op.Small) (fun _ w => w = false) nestedPrepare :=
    .step (.markEndPrepare [8])
      (.append false (.step .insertNoop (.start ⟨0, rfl⟩) trivial (by decide))
        reachable_preparedOps rfl)
      (((HoldsOver.new .encoded 0).insertNoop.append holds_preparedOps
        (.inl rfl)).markEndPrepare_enabled [8]) (by decide)
  rw [nestedPrepare.iterate_eq_runRecords _ _ h.rep_eq hp]
  exact ⟨hr, hp, rfl, rfl, rfl⟩

end RocksBatch
