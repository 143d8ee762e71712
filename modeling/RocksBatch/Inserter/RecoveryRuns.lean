import RocksBatch.Inserter.Transactions

set_option autoImplicit false

/-! # What runs of the inserter report, and what recovery never reads

Two facts about every run of `MemTableInserter`, replays of recovered transactions included.

* `recovery_ignores_db`: in recovery the inserter does not read the DB. `PutCF` asks `Get`
  for the previous value only outside recovery, and `MergeCF` folds merges, which needs the
  memtable's count of merges and a `Get`, only outside recovery (the source: a `Get` during
  recovery would wait for the DB mutex recovery holds). Any two environments that differ
  only in those answers give the same runs.
* `iterate_reports_writes`: `has_valid_writes` is set before any call on a memtable and never
  cleared, so a run that called a memtable ends with it set; `InsertInto(batch)`, which starts
  it unset, reports every run that wrote.
-/

namespace RocksBatch

open MemTableInserter InserterState
open WriteBatchInternal (insertIntoBatch)

/-! ## Recovery does not read the DB -/

section Ignores

variable {env : Env} (hL : env.recoveringLogNumber ≠ 0)
  (dbGet : UInt32 → UInt64 → Bytes → Status × Bytes) (count : UInt32 → UInt64 → Bytes → Nat)
include hL

theorem putValue_ignores_db :
    putValue { env with dbGet := dbGet, countSuccessiveMergeEntries := count } = putValue env := by
  funext cfId key value cf st
  simp [putValue, hL]

theorem mergeValue_ignores_db :
    mergeValue { env with dbGet := dbGet, countSuccessiveMergeEntries := count } =
      mergeValue env := by
  funext cfId key value cf st
  simp [mergeValue, hL]

theorem handlerWith_ignores_db (replay : WriteBatch → InserterState → Status × InserterState) :
    handlerWith { env with dbGet := dbGet, countSuccessiveMergeEntries := count } replay =
      handlerWith env replay := by
  unfold handlerWith putCF mergeCF
  rw [putValue_ignores_db hL, mergeValue_ignores_db hL]
  rfl

theorem memTableInserter_ignores_db : ∀ depth : Nat,
    memTableInserter { env with dbGet := dbGet, countSuccessiveMergeEntries := count } depth =
      memTableInserter env depth
  | 0 => handlerWith_ignores_db hL dbGet count _
  | depth + 1 => by
      rw [memTableInserter, memTableInserter_ignores_db depth]
      exact handlerWith_ignores_db hL dbGet count _

end Ignores

/-- **Recovery never reads the DB.** In recovery, at every depth of replays, `Iterate` of any
batch from any state, and `InsertInto` of a batch, are the same whatever `Get` answers and
however many merges the memtables count at the head of a key: no in-place callback is given
a value read from the DB, and no merge is folded. -/
theorem recovery_ignores_db {env : Env} (hL : env.recoveringLogNumber ≠ 0)
    (dbGet : UInt32 → UInt64 → Bytes → Status × Bytes) (count : UInt32 → UInt64 → Bytes → Nat)
    (depth : Nat) :
    (∀ (b : WriteBatch) (st : InserterState),
      b.iterate (memTableInserter { env with dbGet := dbGet, countSuccessiveMergeEntries := count }
        depth) st = b.iterate (memTableInserter env depth) st) ∧
    ∀ (b : WriteBatch) (table : RecoveredTable),
      insertIntoBatch { env with dbGet := dbGet, countSuccessiveMergeEntries := count } depth b table =
        insertIntoBatch env depth b table := by
  have h := memTableInserter_ignores_db hL dbGet count depth
  exact ⟨fun b st => by rw [h], fun b table => by rw [insertIntoBatch, insertIntoBatch, h]⟩

theorem recovery_ignores_db_prepared :
    (Env.plain 1).recoveringLogNumber ≠ 0 ∧
    (∀ (b : WriteBatch) (st : InserterState),
      b.iterate (memTableInserter { Env.plain 1 with
          dbGet := fun _ _ _ => (.ok, [7]), countSuccessiveMergeEntries := fun _ _ _ => 9 } 1) st =
        b.iterate (memTableInserter (Env.plain 1) 1) st) ∧
    ∀ (b : WriteBatch) (table : RecoveredTable),
      insertIntoBatch { Env.plain 1 with
          dbGet := fun _ _ _ => (.ok, [7]), countSuccessiveMergeEntries := fun _ _ _ => 9 } 1 b table =
        insertIntoBatch (Env.plain 1) 1 b table :=
  ⟨by decide, recovery_ignores_db (by decide) _ _ 1⟩

/-! ## Memtable writes -/

/-- `st'` is `st` with calls made on memtables and its sequence moved, and nothing else: what
the memtable write of a counted callback does. -/
def Writes (st st' : InserterState) : Prop :=
  ∃ es seq, st' = { st with effects := st.effects ++ es, sequence := seq }

namespace Writes

variable {st st' st'' : InserterState}

theorem refl (st : InserterState) : Writes st st := ⟨[], st.sequence, by cases st; simp⟩

theorem trans (h : Writes st st') (h' : Writes st' st'') : Writes st st'' := by
  obtain ⟨es, s, rfl⟩ := h
  obtain ⟨fs, s', rfl⟩ := h'
  exact ⟨es ++ fs, s', by simp⟩

theorem emit (st : InserterState) (e : Effect) : Writes st (st.emit e) := ⟨[e], st.sequence, rfl⟩

theorem bump (st : InserterState) : Writes st st.bump :=
  ⟨[], st.sequence + 1, by simp [InserterState.bump]⟩

theorem hasValidWrites (h : Writes st st') : st'.hasValidWrites = st.hasValidWrites := by
  obtain ⟨_, _, rfl⟩ := h
  rfl

theorem failedAsserts (h : Writes st st') : st'.failedAsserts = st.failedAsserts := by
  obtain ⟨_, _, rfl⟩ := h
  rfl

theorem logNumberRef (h : Writes st st') : st'.logNumberRef = st.logNumberRef := by
  obtain ⟨_, _, rfl⟩ := h
  rfl

end Writes

section Writes

variable (env : Env) (cfId : UInt32) (st : InserterState)

theorem writes_checkMemtableFull : Writes st (checkMemtableFull env cfId st) := by
  unfold checkMemtableFull
  split
  · exact .emit _ _
  · exact .refl _

theorem writes_putValue (key value : Bytes) (cf : ColumnFamily) :
    Writes st (putValue env cfId key value cf st) := by
  unfold putValue
  split
  · exact .emit _ _
  split
  · exact .emit _ _
  dsimp only
  split
  · exact .emit _ _
  split
  · exact (Writes.emit _ _).trans (.emit _ _)
  · exact (Writes.emit _ _).trans (.emit _ _)
  · exact .emit _ _

theorem writes_mergeValue (key value : Bytes) (cf : ColumnFamily) :
    Writes st (mergeValue env cfId key value cf st) := by
  unfold mergeValue
  dsimp only
  split <;> exact .emit _ _

theorem writes_deleteImpl (key value : Bytes) (type : ValueType) :
    Writes st (deleteImpl env cfId key value type st).2 :=
  ((Writes.emit _ _).trans (.bump _)).trans (writes_checkMemtableFull env cfId _)

/-- `SeekToColumnFamily` skips the record, changing nothing, or selects the memtable having
set `has_valid_writes`, and checks nothing. -/
theorem seekToColumnFamily_valid :
    (∃ s, seekToColumnFamily env cfId st = (none, s, st)) ∨
      ∃ cf st', seekToColumnFamily env cfId st = (some cf, .ok, st') ∧
        st'.hasValidWrites = true ∧ st'.failedAsserts = st.failedAsserts ∧
        st'.logNumberRef = st.logNumberRef := by
  unfold seekToColumnFamily
  split
  · exact .inl ⟨_, rfl⟩
  split
  · exact .inl ⟨_, rfl⟩
  dsimp only
  split <;> exact .inr ⟨_, _, rfl, rfl, rfl, rfl⟩

/-- A counted callback checks nothing and leaves the bound log alone. -/
theorem countedCallback_keeps {rebuild : WriteBatch → WriteBatch}
    {write : ColumnFamily → InserterState → Status × InserterState}
    (hw : ∀ cf st', Writes st' (write cf st').2) :
    (countedCallback env cfId rebuild write st).2.failedAsserts = st.failedAsserts ∧
      (countedCallback env cfId rebuild write st).2.logNumberRef = st.logNumberRef := by
  unfold countedCallback
  split
  · exact ⟨rfl, rfl⟩
  rcases seekToColumnFamily_valid env cfId st with ⟨s, hs⟩ | ⟨cf, st', hs, -, hf, hl⟩ <;> rw [hs]
  · exact ⟨rfl, rfl⟩
  · exact ⟨(hw cf st').failedAsserts.trans hf, (hw cf st').logNumberRef.trans hl⟩

/-- The callback of a counted record is `countedCallback` on the record's column family, with
a memtable write that only writes. -/
theorem dispatch_counted_writes (replay : WriteBatch → InserterState → Status × InserterState)
    {r : Record} (hr : r.IsCounted = true) :
    ∃ rebuild write, (∀ st, ((handlerWith env replay).dispatch r st).2.2 =
        (countedCallback env r.cf rebuild write st).2) ∧
      ∀ cf st', Writes st' (write cf st').2 := by
  cases r with
  | put cf k v =>
      exact ⟨_, _, fun _ => rfl, fun c s =>
        ((writes_putValue env cf s k v c).trans (.bump _)).trans (writes_checkMemtableFull env cf _)⟩
  | delete cf k => exact ⟨_, _, fun _ => rfl, fun _ s => writes_deleteImpl env cf s _ _ _⟩
  | singleDelete cf k => exact ⟨_, _, fun _ => rfl, fun _ s => writes_deleteImpl env cf s _ _ _⟩
  | deleteRange cf k e =>
      refine ⟨_, _, fun _ => rfl, fun c s => ?_⟩
      by_cases hs : env.hasDb = true ∧ c.deleteRangeSupported = false
      · simp only [hs, and_self, if_true]
        exact .refl s
      · simp only [if_neg hs]
        exact writes_deleteImpl env cf s _ _ _
  | merge cf k v =>
      exact ⟨_, _, fun _ => rfl, fun c s =>
        ((writes_mergeValue env cf s k v c).trans (.bump _)).trans (writes_checkMemtableFull env cf _)⟩
  | _ => cases hr

end Writes

/-! ## `has_valid_writes` -/

/-- From `st` to `st'`: no call on a memtable and `has_valid_writes` as it was, or
`has_valid_writes` set. -/
def ReportsWrites (st st' : InserterState) : Prop :=
  (st'.effects = st.effects ∧ st'.hasValidWrites = st.hasValidWrites) ∨ st'.hasValidWrites = true

namespace ReportsWrites

variable {st st' st'' : InserterState}

theorem refl (st : InserterState) : ReportsWrites st st := .inl ⟨rfl, rfl⟩

theorem trans (h : ReportsWrites st st') (h' : ReportsWrites st' st'') : ReportsWrites st st'' := by
  rcases h' with ⟨he', hv'⟩ | hv'
  · rcases h with ⟨he, hv⟩ | hv
    · exact .inl ⟨he'.trans he, hv'.trans hv⟩
    · exact .inr (hv'.trans hv)
  · exact .inr hv'

end ReportsWrites

section Reports

variable {env : Env} (replay : WriteBatch → InserterState → Status × InserterState)
  (st : InserterState)

theorem countedCallback_reports {cfId : UInt32} {rebuild : WriteBatch → WriteBatch}
    {write : ColumnFamily → InserterState → Status × InserterState}
    (hw : ∀ cf st', Writes st' (write cf st').2) :
    ReportsWrites st (countedCallback env cfId rebuild write st).2 := by
  unfold countedCallback
  split
  · exact .refl _
  rcases seekToColumnFamily_valid env cfId st with ⟨s, hs⟩ | ⟨cf, st', hs, hv, -, -⟩ <;> rw [hs]
  · exact .inl ⟨rfl, rfl⟩
  · exact .inr ((hw cf st').hasValidWrites.trans hv)

theorem markBeginPrepare_reports : ReportsWrites st (markBeginPrepare env st).2 := by
  unfold markBeginPrepare
  dsimp only
  split
  · split
    · exact .inr rfl
    · exact .inl ⟨by simp, by simp⟩
  · exact .inl ⟨by simp, by simp⟩

theorem markCommit_reports (x : Bytes) : ReportsWrites st (markCommit env replay x st).2 := by
  unfold markCommit
  dsimp only
  split
  · split
    · exact .inl ⟨by simp, by simp⟩
    split
    · exact .inl ⟨by simp, by simp⟩
    · split <;> exact .inr rfl
  · exact .inl ⟨by simp, by simp⟩

theorem markEndPrepare_hasValidWrites (x : Bytes) :
    (markEndPrepare env x st).2.hasValidWrites = st.hasValidWrites := by
  unfold markEndPrepare
  split <;> simp

theorem markRollback_hasValidWrites (x : Bytes) :
    (markRollback env x st).2.hasValidWrites = st.hasValidWrites := by
  unfold markRollback
  dsimp only
  split <;> simp

/-- **Every callback** makes no call on a memtable and leaves `has_valid_writes`, or sets
it. -/
theorem dispatch_reports (r : Record) :
    ReportsWrites st ((handlerWith env replay).dispatch r st).2.2 := by
  cases hc : r.IsCounted
  swap
  · obtain ⟨rebuild, write, heq, hw⟩ := dispatch_counted_writes env replay hc
    rw [heq]
    exact countedCallback_reports st hw
  cases r with
  | logData _ | noop => exact .refl _
  | beginPrepare => exact markBeginPrepare_reports st
  | endPrepare x => exact .inl ⟨markEndPrepare_effects x st, markEndPrepare_hasValidWrites st x⟩
  | commit x => exact markCommit_reports replay st x
  | rollback x => exact .inl ⟨markRollback_effects x st, markRollback_hasValidWrites st x⟩
  | _ => cases hc

end Reports

/-- **`has_valid_writes` is never missed.** At every depth of replays, in either mode, a run
of `Iterate` of any batch from any state either calls no memtable and leaves
`has_valid_writes` as it was, or ends with it set: it is set before every call on a memtable
and never cleared. So `InsertInto(batch)`, which starts it unset, ends with it set whenever
the run made a call on a memtable. -/
theorem iterate_reports_writes (env : Env) (depth : Nat) :
    (∀ (b : WriteBatch) (st : InserterState),
      ((b.iterate (memTableInserter env depth) st).2.effects = st.effects ∧
        (b.iterate (memTableInserter env depth) st).2.hasValidWrites = st.hasValidWrites) ∨
      (b.iterate (memTableInserter env depth) st).2.hasValidWrites = true) ∧
    ∀ (b : WriteBatch) (table : RecoveredTable),
      (insertIntoBatch env depth b table).2.effects = [] ∨
        (insertIntoBatch env depth b table).2.hasValidWrites = true := by
  have hrun : ∀ (b : WriteBatch) (st : InserterState), ReportsWrites st (b.iterate (memTableInserter env depth) st).2 := by
    obtain ⟨replay, hi⟩ := memTableInserter_eq env depth
    rw [hi]
    exact Handler.iterate_preserves _ _ ReportsWrites.refl ReportsWrites.trans
      (fun _ => .refl _) (fun r st => dispatch_reports replay st r)
  refine ⟨hrun, fun b table => ?_⟩
  rcases hrun b (InserterState.start b.sequence table) with ⟨he, -⟩ | hv
  · exact .inl he
  · exact .inr hv

/-! ## The log a commit binds -/

/-- `st'` is `st` with failed assertions recorded, none of them `log_number_ref_ == 0`. -/
def ChecksOther (st st' : InserterState) : Prop :=
  ∃ fs, st'.failedAsserts = st.failedAsserts ++ fs ∧ "log_number_ref_ == 0" ∉ fs

namespace ChecksOther

variable {st st' st'' : InserterState}

theorem refl (st : InserterState) : ChecksOther st st := ⟨[], by simp, by simp⟩

theorem trans (h : ChecksOther st st') (h' : ChecksOther st' st'') : ChecksOther st st'' := by
  obtain ⟨fs, he, hn⟩ := h
  obtain ⟨gs, he', hn'⟩ := h'
  exact ⟨fs ++ gs, by rw [he', he, List.append_assoc], by simp [hn, hn']⟩

theorem congr (h : ChecksOther st st') (he : st''.failedAsserts = st'.failedAsserts) :
    ChecksOther st st'' :=
  let ⟨fs, hf, hn⟩ := h
  ⟨fs, he.trans hf, hn⟩

/-- An assertion that holds, or one other than `log_number_ref_ == 0`. -/
theorem check (h : ChecksOther st st') (c : Bool) (m : String)
    (hm : c = true ∨ m ≠ "log_number_ref_ == 0") : ChecksOther st (st'.check c m) := by
  cases c
  · exact h.trans ⟨[m], rfl, fun he =>
      hm.resolve_left Bool.false_ne_true (List.mem_singleton.mp he).symm⟩
  · exact h.congr rfl

end ChecksOther

/-- From a state with no log bound and counted-only prepared transactions, `st'` has no log
bound and counted-only prepared transactions, and no failure of `log_number_ref_ == 0` has been
recorded since `st`. -/
def LogUnbound (st st' : InserterState) : Prop :=
  st.TrxCounted → st.logNumberRef = 0 →
    st'.TrxCounted ∧ st'.logNumberRef = 0 ∧ ChecksOther st st'

namespace LogUnbound

variable {st st' st'' : InserterState}

theorem refl (st : InserterState) : LogUnbound st st := fun hc hl => ⟨hc, hl, .refl st⟩

theorem trans (h : LogUnbound st st') (h' : LogUnbound st' st'') : LogUnbound st st'' :=
  fun hc hl =>
    let ⟨hc', hl', hk⟩ := h hc hl
    let ⟨hc'', hl'', hk'⟩ := h' hc' hl'
    ⟨hc'', hl'', hk.trans hk'⟩

end LogUnbound

section Commit

variable {env : Env} (replay : WriteBatch → InserterState → Status × InserterState)
  (st : InserterState)

theorem dispatch_counted_logUnbound {r : Record} (hr : r.IsCounted = true) (hs : r.Small) :
    LogUnbound st ((handlerWith env replay).dispatch r st).2.2 := by
  intro hc hl
  obtain ⟨rebuild, write, heq, hw⟩ := dispatch_counted_writes env replay hr
  obtain ⟨hf, hlog⟩ := countedCallback_keeps env r.cf st hw
  refine ⟨(dispatch_counted_tableFrom replay hr hs st hc).1, by rw [heq, hlog, hl], ?_⟩
  exact (ChecksOther.refl st).congr (by rw [heq, hf])

theorem markBeginPrepare_logUnbound : LogUnbound st (markBeginPrepare env st).2 := by
  intro hc hl
  have h1 := ((ChecksOther.refl st).check st.rebuildingTrx.isNone "rebuilding_trx_ == nullptr"
    (.inr (by decide))).check env.hasDb "db_" (.inr (by decide))
  refine ⟨(markBeginPrepare_tableFrom st hc).1, ?_, ?_⟩ <;> unfold markBeginPrepare <;>
    dsimp only <;> split
  · split <;> simpa using hl
  · simpa using hl
  · split
    · exact h1.congr rfl
    · exact h1
  · exact h1.check _ _ (.inr (by decide))

theorem markEndPrepare_logUnbound (x : Bytes) : LogUnbound st (markEndPrepare env x st).2 := by
  intro hc hl
  have h1 := ((ChecksOther.refl st).check env.hasDb "db_" (.inr (by decide))).check
    (st.rebuildingTrx.isSome == (env.recoveringLogNumber != 0))
    "(rebuilding_trx_ != nullptr) == (recovering_log_number_ != 0)" (.inr (by decide))
  refine ⟨(markEndPrepare_tableFrom x st hc).1, ?_, ?_⟩ <;> unfold markEndPrepare <;>
    dsimp only <;> split
  · simpa using hl
  · simpa using hl
  · exact (h1.check _ _ (.inr (by decide))).congr rfl
  · exact (h1.check _ _ (.inr (by decide))).check _ _ (.inr (by decide))

theorem markRollback_logUnbound (x : Bytes) : LogUnbound st (markRollback env x st).2 := by
  intro hc hl
  have h1 := (ChecksOther.refl st).check env.hasDb "db_" (.inr (by decide))
  refine ⟨(markRollback_tableFrom x st hc).1, ?_, ?_⟩ <;> unfold markRollback <;>
    dsimp only <;> split
  · simpa using hl
  · simpa using hl
  · exact h1.congr rfl
  · exact h1

/-- A commit in recovery checks `log_number_ref_ == 0` with no log bound, binds the
transaction's log for the replay of a counted-only batch, which checks nothing, and unbinds
it. -/
theorem markCommit_logUnbound (htab : ∀ b st, CountedOnly b → TableFrom [] st (replay b st).2)
    (hfa : ∀ b st, CountedOnly b → (replay b st).2.failedAsserts = st.failedAsserts)
    (x : Bytes) : LogUnbound st (markCommit env replay x st).2 := by
  intro hc hl
  have h1 := (ChecksOther.refl st).check env.hasDb "db_" (.inr (by decide))
  refine ⟨(markCommit_tableFrom replay htab x st hc).1, ?_, ?_⟩ <;> unfold markCommit <;>
    dsimp only <;> split
  · split
    · simpa using hl
    split
    · simpa using hl
    · split <;> rfl
  · simpa using hl
  · split
    · exact h1
    rename_i t ht
    have h2 := h1.check ((st.check env.hasDb "db_").logNumberRef == 0) "log_number_ref_ == 0"
      (.inl (by simp [hl]))
    split
    · exact h2.check _ _ (.inr (by decide))
    rename_i b hb
    split <;> exact h2.congr (hfa b _ (hc.recovered x t b ht hb))
  · exact h1

end Commit

/-- A replay of a counted-only batch checks nothing. -/
theorem iterate_countedOnly_failedAsserts (env : Env) (depth : Nat) {b : WriteBatch}
    (hb : CountedOnly b) (st : InserterState) :
    (b.iterate (memTableInserter env depth) st).2.failedAsserts = st.failedAsserts := by
  obtain ⟨replay, hi⟩ := memTableInserter_eq env depth
  rw [hi]
  refine Handler.iterate_preserves_on _
    (fun st st' : InserterState => st'.failedAsserts = st.failedAsserts)
    (fun _ => rfl) (fun h h' => h'.trans h) (fun _ => rfl) b (fun r hr st => ?_) st
  obtain ⟨rebuild, write, heq, hw⟩ := dispatch_counted_writes env replay (hb.readRecords_counted r hr)
  rw [heq]
  exact (countedCallback_keeps env r.cf st hw).1

/-- **A commit binds its transaction's log for the replay only.** In either mode, at every
depth of replays, `Iterate` of any bytes from a state with no log bound and counted-only
prepared transactions ends with no log bound, and records no failure of MarkCommit's
assertion `log_number_ref_ == 0`: a replayed transaction holds no commit marker, so no commit
is reached while a log is bound. -/
theorem iterate_log_unbound (env : Env) (depth : Nat) (b : WriteBatch) {st : InserterState}
    (hst : st.TrxCounted) (hl : st.logNumberRef = 0) :
    (b.iterate (memTableInserter env depth) st).2.logNumberRef = 0 ∧
      ∃ fs, (b.iterate (memTableInserter env depth) st).2.failedAsserts = st.failedAsserts ++ fs ∧
        "log_number_ref_ == 0" ∉ fs := by
  have hdisp : ∀ replay : WriteBatch → InserterState → Status × InserterState,
      (∀ b st, CountedOnly b → TableFrom [] st (replay b st).2) →
      (∀ b st, CountedOnly b → (replay b st).2.failedAsserts = st.failedAsserts) →
      ∀ r ∈ (readRecords (b.rep.drop kHeader)).1, ∀ st,
        LogUnbound st ((handlerWith env replay).dispatch r st).2.2 := by
    intro replay htab hfa r hr st
    cases hc : r.IsCounted
    · cases r with
      | logData _ | noop => exact .refl _
      | beginPrepare => exact markBeginPrepare_logUnbound st
      | endPrepare x => exact markEndPrepare_logUnbound st x
      | commit x => exact markCommit_logUnbound replay st htab hfa x
      | rollback x => exact markRollback_logUnbound st x
      | _ => cases hc
    · exact dispatch_counted_logUnbound replay st hc (small_of_mem_readRecords hr)
  have hrun : LogUnbound st (b.iterate (memTableInserter env depth) st).2 := by
    cases depth with
    | zero =>
        exact Handler.iterate_preserves_on _ _ LogUnbound.refl LogUnbound.trans
          (fun _ => .refl _) b (hdisp _ (fun _ st _ => .refl _ st) fun _ _ _ => rfl) st
    | succ depth =>
        exact Handler.iterate_preserves_on _ _ LogUnbound.refl LogUnbound.trans
          (fun _ => .refl _) b (hdisp _ (fun _ st hb => iterate_countedOnly_tableFrom env depth hb st)
            fun _ st hb => iterate_countedOnly_failedAsserts env depth hb st) st
  obtain ⟨-, hl', hk⟩ := hrun hst hl
  exact ⟨hl', hk⟩

theorem iterate_log_unbound_preparedPut :
    (InserterState.start 0 fun _ => none).TrxCounted ∧
      (InserterState.start 0 fun _ => none).logNumberRef = 0 ∧
      (preparedPut.iterate (memTableInserter (Env.plain 1) 1)
        (InserterState.start 0 fun _ => none)).2.logNumberRef = 0 ∧
      ∃ fs, (preparedPut.iterate (memTableInserter (Env.plain 1) 1)
          (InserterState.start 0 fun _ => none)).2.failedAsserts =
          (InserterState.start 0 fun _ => none).failedAsserts ++ fs ∧
        "log_number_ref_ == 0" ∉ fs :=
  ⟨trxCounted_start 0, rfl,
    iterate_log_unbound (Env.plain 1) 1 preparedPut (trxCounted_start 0) rfl⟩

end RocksBatch
