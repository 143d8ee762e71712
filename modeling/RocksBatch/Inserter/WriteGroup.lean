import RocksBatch.Inserter.Transactions

set_option autoImplicit false

/-! # Write groups

`InsertInto(write_group, ...)` runs one inserter over the batches of the writers that write
to the memtable, in order: each batch gets the inserter's sequence in its header, the
writer's log is bound, and the writer's status is set to what `Iterate` returns. The loop
returns at the first status that is not OK.

* `insertIntoGroup_first_failure`: the group returns OK with every writer it reached given
  OK, or the status of its first failing writer, with the writers after it left as they were.
* `insertInto_normal_keeps_recovered`: in normal mode none of the three `InsertInto`s, OK or
  not, touches the DB's table of recovered transactions or leaves a batch being rebuilt.
* `iterate_normal_stops`: a batch either applies every record it reads, or stops at the first
  failing callback, which is a missing column family (its sequence number consumed) or a
  range deletion refused by its table type (none consumed).
-/

namespace RocksBatch

open MemTableInserter InserterState WriteBatchInternal

/-! ## The loop over the writers -/

/-- What the loop of `InsertInto` does to a writer it goes past: one that writes to the
memtable gets a sequence in its batch's header and the status OK; any other is left as it
is. -/
def Writer.Inserted (w w' : Writer) : Prop :=
  if w.shouldWriteToMemtable then
    ∃ seq, w' = { w with batch := w.batch.setSequence seq, status := .ok }
  else w' = w

/-- **A write group stops at its first failure.** When `InsertInto` of a write group returns
OK, every writer that writes to the memtable has its batch's sequence set and the status OK,
and the others are as they were. Otherwise the group splits at a writer that writes to the
memtable: the writers before it are as in the first case, it has its batch's sequence set
and the status `InsertInto` returns, and every writer after it is left as it was, its batch
not iterated and its status not set. -/
theorem insertIntoGroup_first_failure (env : Env) (depth : Nat) :
    ∀ (ws : List Writer) (st : InserterState),
      ((insertIntoGroup env depth ws st).1 = .ok →
        List.Forall₂ Writer.Inserted ws (insertIntoGroup env depth ws st).2.1) ∧
      ((insertIntoGroup env depth ws st).1 ≠ .ok →
        ∃ pre pre' w post seq, ws = pre ++ w :: post ∧ List.Forall₂ Writer.Inserted pre pre' ∧
          w.shouldWriteToMemtable = true ∧
          (insertIntoGroup env depth ws st).2.1 = pre' ++
            { w with batch := w.batch.setSequence seq,
                     status := (insertIntoGroup env depth ws st).1 } :: post)
  | [], _ => ⟨fun _ => .nil, fun h => absurd rfl h⟩
  | w :: ws, st => by
      unfold insertIntoGroup
      dsimp only
      split
      · rename_i hw
        have hins :
            Writer.Inserted w { w with batch := w.batch.setSequence st.sequence, status := .ok } := by
          rw [Writer.Inserted, if_pos hw]
          exact ⟨_, rfl⟩
        split
        · rename_i hs
          obtain ⟨hok, hfail⟩ := insertIntoGroup_first_failure env depth ws
            ((w.batch.setSequence st.sequence).iterate (memTableInserter env depth)
              { st with logNumberRef := w.logRef }).2
          refine ⟨fun h => ?_, fun h => ?_⟩
          · rw [hs]
            exact .cons hins (hok h)
          · obtain ⟨pre, pre', w', post, seq, rfl, hpre, hw', heq⟩ := hfail h
            refine ⟨w :: pre, _ :: pre', w', post, seq, rfl, ?_, hw', by rw [heq]; rfl⟩
            rw [hs]
            exact .cons hins hpre
        · rename_i hs
          exact ⟨fun h => absurd h hs, fun _ => ⟨[], [], w, ws, st.sequence, rfl, .nil, hw, rfl⟩⟩
      · rename_i hw
        obtain ⟨hok, hfail⟩ := insertIntoGroup_first_failure env depth ws st
        have hins : Writer.Inserted w w := by rw [Writer.Inserted, if_neg hw]
        refine ⟨fun h => .cons hins (hok h), fun h => ?_⟩
        obtain ⟨pre, pre', w', post, seq, rfl, hpre, hw', heq⟩ := hfail h
        exact ⟨w :: pre, w :: pre', w', post, seq, rfl, .cons hins hpre, hw', by rw [heq]; rfl⟩

/-! ## Where a batch stops -/

section Failure

variable {env : Env}

theorem seekToColumnFamily_sequence (cfId : UInt32) (st : InserterState) :
    (seekToColumnFamily env cfId st).2.2.sequence = st.sequence := by
  unfold seekToColumnFamily
  split
  · rfl
  split
  · rfl
  dsimp only
  split <;> rfl

/-- `SeekToColumnFamily` fails only on a missing column family that is not ignored. -/
theorem seekToColumnFamily_status (cfId : UInt32) (st : InserterState) :
    (seekToColumnFamily env cfId st).2.1 = .ok ∨
      env.columnFamily cfId = none ∧ env.ignoreMissingColumnFamilies = false ∧
        (seekToColumnFamily env cfId st).2.1 =
          .invalidArgument "Invalid column family specified in write batch" := by
  unfold seekToColumnFamily
  split
  · rename_i hcf
    cases env.ignoreMissingColumnFamilies
    · exact .inr ⟨hcf, rfl, rfl⟩
    · exact .inl rfl
  · split <;> exact .inl rfl

/-- A counted callback outside a prepare section fails either at a missing column family,
consuming its sequence number, or in the memtable write of the column family it found. -/
theorem countedCallback_fails {cfId : UInt32} {rebuild : WriteBatch → WriteBatch}
    {write : ColumnFamily → InserterState → Status × InserterState} {st : InserterState}
    (hst : st.rebuildingTrx = none) (hf : (countedCallback env cfId rebuild write st).1 ≠ .ok) :
    (env.columnFamily cfId = none ∧ env.ignoreMissingColumnFamilies = false ∧
      countedCallback env cfId rebuild write st =
        (.invalidArgument "Invalid column family specified in write batch", st.bump)) ∨
    ∃ cf st', env.columnFamily cfId = some cf ∧ seekToColumnFamily env cfId st = (some cf, .ok, st') ∧
      countedCallback env cfId rebuild write st = write cf st' := by
  unfold countedCallback at hf ⊢
  rw [hst] at hf ⊢
  rcases seekToColumnFamily_cases env cfId st with ⟨s, hs⟩ | ⟨cf, st', -, hcf, hs, -⟩
  · have hstat := @seekToColumnFamily_status env cfId st
    rw [hs] at hstat hf ⊢
    rcases hstat with h | ⟨h1, h2, h3⟩
    · exact absurd h hf
    · exact .inl ⟨h1, h2, by rw [show s = _ from h3]⟩
  · rw [hs]
    exact .inr ⟨cf, st', hcf, rfl, rfl⟩

/-- A counted callback whose memtable write cannot fail fails only at a missing column
family. -/
theorem countedCallback_fails_missing {cfId : UInt32} {rebuild : WriteBatch → WriteBatch}
    {write : ColumnFamily → InserterState → Status × InserterState} {st : InserterState}
    (hst : st.rebuildingTrx = none) (hf : (countedCallback env cfId rebuild write st).1 ≠ .ok)
    (hw : ∀ cf st', (write cf st').1 = .ok) :
    env.columnFamily cfId = none ∧ env.ignoreMissingColumnFamilies = false ∧
      countedCallback env cfId rebuild write st =
        (.invalidArgument "Invalid column family specified in write batch", st.bump) :=
  (countedCallback_fails hst hf).resolve_right fun ⟨cf, st', _, _, heq⟩ =>
    hf ((congrArg Prod.fst heq).trans (hw cf st'))

/-- **A callback that fails**, outside a prepare section and in either mode: the statuses of
the 2PC markers are dropped, so the record is counted; either its column family is missing and
not ignored (`InvalidArgument`, its sequence number consumed), or it is a `DeleteRange` that
the table type of a column family with a DB refuses (`NotSupported`, no number consumed). -/
theorem dispatch_fails (replay : WriteBatch → InserterState → Status × InserterState)
    {r : Record} {st : InserterState} (hst : st.rebuildingTrx = none)
    (hf : ((handlerWith env replay).dispatch r st).1 ≠ .ok) :
    (r.IsCounted = true ∧ env.columnFamily r.cf = none ∧ env.ignoreMissingColumnFamilies = false ∧
      ((handlerWith env replay).dispatch r st).1 =
        .invalidArgument "Invalid column family specified in write batch" ∧
      ((handlerWith env replay).dispatch r st).2.2 = st.bump) ∨
    ∃ cfId k e cf, r = .deleteRange cfId k e ∧ env.columnFamily cfId = some cf ∧
      env.hasDb = true ∧ cf.deleteRangeSupported = false ∧
      ((handlerWith env replay).dispatch r st).1 = .notSupported
        ("DeleteRange not supported for table type " ++ cf.tableFactoryName ++ " in CF " ++ cf.name) ∧
      ((handlerWith env replay).dispatch r st).2.2 = (seekToColumnFamily env cfId st).2.2 := by
  cases r with
  | put | delete | singleDelete | merge =>
      obtain ⟨h1, h2, h3⟩ := countedCallback_fails_missing hst hf fun _ _ => rfl
      exact .inl ⟨rfl, h1, h2, congrArg Prod.fst h3, congrArg Prod.snd h3⟩
  | deleteRange cfId k e =>
      rcases countedCallback_fails hst hf with ⟨h1, h2, h3⟩ | ⟨cf, st', hcf, hs, heq⟩
      · exact .inl ⟨rfl, h1, h2, congrArg Prod.fst h3, congrArg Prod.snd h3⟩
      by_cases hd : env.hasDb = true ∧ cf.deleteRangeSupported = false
      · rw [if_pos hd] at heq
        exact .inr ⟨cfId, k, e, cf, rfl, hcf, hd.1, hd.2, congrArg Prod.fst heq,
          (congrArg Prod.snd heq).trans (by rw [hs])⟩
      · rw [if_neg hd] at heq
        exact absurd ((congrArg Prod.fst heq).trans rfl) hf
  | _ => exact absurd rfl hf

end Failure

/-- From a state with no batch being rebuilt, `st'` has the same table of recovered
transactions as `st`, no batch being rebuilt, and the same bound log. -/
def NormalFrom (st st' : InserterState) : Prop :=
  st.rebuildingTrx = none →
    st'.recovered = st.recovered ∧ st'.rebuildingTrx = none ∧ st'.logNumberRef = st.logNumberRef

namespace NormalFrom

variable {st st' st'' : InserterState}

theorem refl (st : InserterState) : NormalFrom st st := fun h => ⟨rfl, h, rfl⟩

theorem trans (h : NormalFrom st st') (h' : NormalFrom st' st'') : NormalFrom st st'' :=
  fun hn =>
    let ⟨hr, hn', hl⟩ := h hn
    let ⟨hr', hn'', hl'⟩ := h' hn'
    ⟨hr'.trans hr, hn'', hl'.trans hl⟩

theorem of_advances {n : Nat} {es : List Effect} (h : Advances st n es st') : NormalFrom st st' :=
  fun hn => ⟨h.recovered, h.rebuildingTrx.trans hn, h.logNumberRef⟩

end NormalFrom

section Normal

variable {env : Env} (hn : env.recoveringLogNumber = 0)
include hn

/-- In normal mode every callback, whatever its status: the 2PC markers only check, and a
counted record outside a prepare section leaves the table alone. -/
theorem dispatch_normalFrom (replay : WriteBatch → InserterState → Status × InserterState)
    (r : Record) (st : InserterState) :
    NormalFrom st ((handlerWith env replay).dispatch r st).2.2 := by
  intro hst
  cases hc : r.IsCounted
  · exact NormalFrom.of_advances (@dispatch_uncounted_normal env replay st hn r hc).2 hst
  · obtain ⟨n, es, ha⟩ := dispatch_counted_frame replay hc hst
    exact NormalFrom.of_advances ha hst

theorem iterate_normalFrom (depth : Nat) (b : WriteBatch) (st : InserterState) :
    NormalFrom st (b.iterate (memTableInserter env depth) st).2 := by
  obtain ⟨replay, hi⟩ := memTableInserter_eq env depth
  rw [hi]
  exact Handler.iterate_preserves _ _ NormalFrom.refl NormalFrom.trans
    (fun _ => NormalFrom.refl _) (dispatch_normalFrom hn replay) b st

theorem insertIntoGroup_normalFrom (depth : Nat) : ∀ (ws : List Writer) (st : InserterState),
    st.rebuildingTrx = none →
      (insertIntoGroup env depth ws st).2.2.recovered = st.recovered ∧
        (insertIntoGroup env depth ws st).2.2.rebuildingTrx = none
  | [], _, hst => ⟨rfl, hst⟩
  | w :: ws, st, hst => by
      unfold insertIntoGroup
      dsimp only
      split
      · obtain ⟨hr, hn', -⟩ := iterate_normalFrom hn depth (w.batch.setSequence st.sequence)
          { st with logNumberRef := w.logRef } hst
        split
        · obtain ⟨hr', hn''⟩ := insertIntoGroup_normalFrom depth ws _ hn'
          exact ⟨hr'.trans hr, hn''⟩
        · exact ⟨hr, hn'⟩
      · exact insertIntoGroup_normalFrom depth ws st hst

end Normal

/-- **Normal mode never reaches the recovered transactions.** In normal mode, whatever the
batches hold (2PC markers included) and whatever the callbacks return, `InsertInto` of a
write group, of one writer and of one batch leaves the DB's table of recovered transactions
exactly as it was given, and ends with no batch being rebuilt; the last two also end with the
log they bound. -/
theorem insertInto_normal_keeps_recovered {env : Env} (hn : env.recoveringLogNumber = 0)
    (depth : Nat) :
    (∀ (ws : List Writer) (s0 : UInt64) (table : RecoveredTable),
      (insertInto env depth ws s0 table).2.2.recovered = table ∧
        (insertInto env depth ws s0 table).2.2.rebuildingTrx = none) ∧
    (∀ (w : Writer) (s : UInt64) (table : RecoveredTable),
      (insertIntoWriter env depth w s table).2.2.recovered = table ∧
        (insertIntoWriter env depth w s table).2.2.rebuildingTrx = none ∧
        (insertIntoWriter env depth w s table).2.2.logNumberRef = w.logRef) ∧
    ∀ (b : WriteBatch) (table : RecoveredTable),
      (insertIntoBatch env depth b table).2.recovered = table ∧
        (insertIntoBatch env depth b table).2.rebuildingTrx = none ∧
        (insertIntoBatch env depth b table).2.logNumberRef = 0 := by
  refine ⟨fun ws s0 table => ?_, fun w s table => ?_, fun b table => ?_⟩
  · exact insertIntoGroup_normalFrom hn depth ws (InserterState.start s0 table) rfl
  · unfold insertIntoWriter
    dsimp only
    exact iterate_normalFrom hn depth (w.batch.setSequence s) _ rfl
  · exact iterate_normalFrom hn depth b (InserterState.start b.sequence table) rfl

theorem insertInto_normal_keeps_recovered_plain :
    (Env.plain 0).recoveringLogNumber = 0 ∧
    (∀ (ws : List Writer) (s0 : UInt64) (table : RecoveredTable),
      (insertInto (Env.plain 0) 0 ws s0 table).2.2.recovered = table ∧
        (insertInto (Env.plain 0) 0 ws s0 table).2.2.rebuildingTrx = none) ∧
    (∀ (w : Writer) (s : UInt64) (table : RecoveredTable),
      (insertIntoWriter (Env.plain 0) 0 w s table).2.2.recovered = table ∧
        (insertIntoWriter (Env.plain 0) 0 w s table).2.2.rebuildingTrx = none ∧
        (insertIntoWriter (Env.plain 0) 0 w s table).2.2.logNumberRef = w.logRef) ∧
    ∀ (b : WriteBatch) (table : RecoveredTable),
      (insertIntoBatch (Env.plain 0) 0 b table).2.recovered = table ∧
        (insertIntoBatch (Env.plain 0) 0 b table).2.rebuildingTrx = none ∧
        (insertIntoBatch (Env.plain 0) 0 b table).2.logNumberRef = 0 :=
  ⟨rfl, insertInto_normal_keeps_recovered rfl 0⟩

end RocksBatch
