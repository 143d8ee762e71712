import RocksBatch.Inserter.Gating
import RocksBatch.Inserter.Recovery
import RocksBatch.Properties.Framing

set_option autoImplicit false

/-! # The table of recovered transactions

During recovery the inserter works on the DB's table of recovered transactions:
`MarkEndPrepare(x)` adds under `x` the batch a prepare section was rebuilt into,
`MarkCommit(x)` replays the batch under `x` and takes it out when the replay succeeds, and
`MarkRollback(x)` takes it out. A rebuilt batch only ever gets counted records appended, so a
replay shows the inserter counted records and nothing else: a replay never reaches the table,
and the nesting of replays stops at one.

* `CountedOnly b`: the payload of `b` reads as counted records only. `TrxCounted st`: the
  batch being rebuilt and every batch of the table are such batches.
* `TableFrom xs st st'`: `st'` keeps `TrxCounted` from `st` and differs from it in the table
  at most under the xids `xs`.
* `dispatch_tableFrom`: one callback, at the xid of its record; `iterate_countedOnly_tableFrom`:
  the replay of a counted-only batch, at no xid.
* `iterate_keeps_recovered`: a whole `Iterate` of any bytes, at the xids of the markers at the
  front of its payload, replays nested to any depth included.
-/

namespace RocksBatch

open MemTableInserter InserterState

/-! ## Runs over the records at the front of the payload -/

namespace Handler

section PreservesOn

variable {σ : Type} (h : Handler σ) (R : σ → σ → Prop) (hrefl : ∀ st, R st st)
  (htrans : ∀ {a b c}, R a b → R b c → R a c) (hcont : ∀ st, R st (h.continue st).2)
include hrefl htrans hcont

theorem iterateLoop_preserves_on : ∀ (p : Bytes),
    (∀ r ∈ (readRecords p).1, ∀ st, R st (h.dispatch r st).2.2) →
      ∀ (found : Nat) (st : σ), R st (h.iterateLoop p found st).2.2
  | [], _, _, st => by
      rw [iterateLoop]
      exact hrefl st
  | tag :: tail, hdisp, found, st => by
      have h1 := hcont st
      rw [iterateLoop]
      rcases hc : h.continue st with ⟨_ | _, st₁⟩ <;> rw [hc] at h1
      · exact h1
      dsimp only
      split
      · exact h1
      rename_i r rest hr
      have : rest.length < (tag :: tail).length :=
        Nat.lt_succ_of_le (readRecordFromWriteBatch_length_le hr)
      simp only [readRecords_cons_ok hr, Prod.map_fst, List.mem_cons, forall_eq_or_imp] at hdisp
      have h2 := hdisp.1 st₁
      split <;> rename_i hd <;> rw [hd] at h2
      · exact htrans (htrans h1 h2) (iterateLoop_preserves_on rest hdisp.2 _ _)
      · exact htrans h1 h2
termination_by p => p.length

/-- **A run keeps what the callbacks of its records keep**: a preorder on the handler's
states that `Continue()` keeps, and that the callback of every record at the front of the
payload keeps, holds between the state `Iterate` starts from and the one it ends in. -/
theorem iterate_preserves_on (b : WriteBatch)
    (hdisp : ∀ r ∈ (readRecords (b.rep.drop kHeader)).1, ∀ st, R st (h.dispatch r st).2.2)
    (st : σ) : R st (b.iterate h st).2 := by
  have hl := h.iterateLoop_preserves_on R hrefl htrans hcont (b.rep.drop kHeader) hdisp 0 st
  unfold WriteBatch.iterate
  split
  · exact hrefl st
  rcases hq : h.iterateLoop (b.rep.drop kHeader) 0 st with ⟨s, found, st'⟩
  rw [hq] at hl
  cases s <;> dsimp only
  · split <;> exact hl
  all_goals exact hl

end PreservesOn

end Handler

/-! ## Counted-only batches -/

/-- The payload of `b` reads, as the decoder reads it, as counted records only: what a
prepare section is rebuilt into. -/
def CountedOnly (b : WriteBatch) : Prop :=
  ∃ rs, Holds .decoded b rs ∧ ∀ r ∈ rs, r.IsCounted = true

namespace CountedOnly

variable {b : WriteBatch}

theorem new (max_bytes : Nat) : CountedOnly (WriteBatch.new max_bytes) :=
  ⟨[], Holds.new .decoded max_bytes, by simp⟩

/-- A counted append keeps a batch counted-only, whether it fits in `max_bytes` or not. -/
theorem append (h : CountedOnly b) (a : AppendOp) (hs : a.record.Small)
    (hc : a.record.IsCounted = true) : CountedOnly ((Op.append a).apply b) := by
  obtain ⟨rs, ⟨seq, hb⟩, hrs⟩ := h
  rw [Op.apply, AppendOp.apply_eq hb.rep_eq, WriteBatch.appendRecord]
  split
  · exact ⟨_, ⟨seq, hb.pushRecord hs⟩, fun r hr =>
      (List.mem_append.mp hr).elim (hrs r) fun h => List.mem_singleton.mp h ▸ hc⟩
  · exact ⟨rs, ⟨seq, hb⟩, hrs⟩

/-- What a record of a prepare section does to the batch being rebuilt. -/
theorem build_rebuildOps (h : CountedOnly b) {r : Record} (hr : r.Small) :
    CountedOnly (build b r.rebuildOps) := by
  cases r with
  | put cf k v => exact h.append (.put cf k v) hr rfl
  | delete cf k => exact h.append (.delete cf k) hr rfl
  | singleDelete cf k => exact h.append (.singleDelete cf k) hr rfl
  | deleteRange cf k e => exact h.append (.deleteRange cf k e) hr rfl
  | merge cf k v => exact h.append (.merge cf k v) hr rfl
  | _ => exact h

/-- `Iterate` of a counted-only batch shows the handler counted records only. -/
theorem readRecords_counted (h : CountedOnly b) :
    ∀ r ∈ (readRecords (b.rep.drop kHeader)).1, r.IsCounted = true := by
  obtain ⟨rs, ⟨seq, hb⟩, hrs⟩ := h
  rw [parses_iff_readRecords.mp hb.reads]
  exact hrs

end CountedOnly

/-! ## The invariant of the inserter -/

/-- The xid a 2PC marker names. -/
def Record.xids : Record → List Bytes
  | .endPrepare x | .commit x | .rollback x => [x]
  | _ => []

/-- The prepared transactions the inserter holds are counted-only: the batch being rebuilt,
and every batch of the DB's table. -/
structure InserterState.TrxCounted (st : InserterState) : Prop where
  rebuilding : ∀ trx, st.rebuildingTrx = some trx → CountedOnly trx
  recovered : ∀ x t b, st.recovered x = some t → t.batch = some b → CountedOnly b

theorem InserterState.TrxCounted.congr {st st' : InserterState} (h : st.TrxCounted)
    (hr : st'.rebuildingTrx = st.rebuildingTrx) (ht : st'.recovered = st.recovered) :
    st'.TrxCounted :=
  ⟨fun trx h' => h.rebuilding trx (hr ▸ h'), fun x t b h' => h.recovered x t b (ht ▸ h')⟩

theorem InserterState.TrxCounted.delete {st : InserterState} (h : st.TrxCounted) (x : Bytes) :
    { st with recovered := deleteRecoveredTransaction x st.recovered }.TrxCounted := by
  refine ⟨h.rebuilding, fun y t b hy hb => ?_⟩
  simp only [deleteRecoveredTransaction] at hy
  split at hy
  · cases hy
  · exact h.recovered y t b hy hb

/-- `st'` follows `st` keeping the prepared transactions counted-only, with the table of
recovered transactions changed at most under the xids `xs`. -/
def TableFrom (xs : List Bytes) (st st' : InserterState) : Prop :=
  st.TrxCounted → st'.TrxCounted ∧ ∀ x, x ∉ xs → st'.recovered x = st.recovered x

namespace TableFrom

variable {xs ys : List Bytes} {st st' st'' : InserterState}

theorem refl (xs : List Bytes) (st : InserterState) : TableFrom xs st st :=
  fun h => ⟨h, fun _ _ => rfl⟩

theorem trans (h : TableFrom xs st st') (h' : TableFrom xs st' st'') : TableFrom xs st st'' :=
  fun hc =>
    let ⟨hc', hk⟩ := h hc
    let ⟨hc'', hk'⟩ := h' hc'
    ⟨hc'', fun x hx => (hk' x hx).trans (hk x hx)⟩

theorem mono (h : TableFrom xs st st') (hxy : xs ⊆ ys) : TableFrom ys st st' :=
  fun hc =>
    let ⟨hc', hk⟩ := h hc
    ⟨hc', fun x hx => hk x (fun hm => hx (hxy hm))⟩

/-- A step that keeps the batch being rebuilt and the table. -/
theorem of_frame (hr : st'.rebuildingTrx = st.rebuildingTrx) (ht : st'.recovered = st.recovered) :
    TableFrom xs st st' :=
  fun hc => ⟨hc.congr hr ht, fun x _ => by rw [ht]⟩

theorem of_advances {n : Nat} {es : List Effect} (h : Advances st n es st') : TableFrom xs st st' :=
  .of_frame h.rebuildingTrx h.recovered

end TableFrom

/-! ## One callback -/

section Callbacks

variable {env : Env} {cfId : UInt32} {st : InserterState}

theorem countedCallback_frame {rebuild : WriteBatch → WriteBatch}
    {write : ColumnFamily → InserterState → Status × InserterState}
    (hw : ∀ cf st', ∃ n es, Advances st' n es (write cf st').2) (hst : st.rebuildingTrx = none) :
    ∃ n es, Advances st n es (countedCallback env cfId rebuild write st).2 := by
  unfold countedCallback
  rw [hst]
  rcases seekToColumnFamily_cases env cfId st with ⟨s, hs⟩ | ⟨cf, st', es, -, hs, ha, -⟩ <;>
    rw [hs]
  · exact ⟨1, [], Advances.bump st⟩
  · obtain ⟨n, fs, hw⟩ := hw cf st'
    exact ⟨_, _, ha.trans hw⟩

theorem writesOne_frame {st' : InserterState} (h : WritesOne cfId st st') :
    ∃ n es, Advances st n es st' :=
  let ⟨es, ha, _⟩ := h
  ⟨1, es, ha⟩

variable (replay : WriteBatch → InserterState → Status × InserterState)

/-- A counted record outside a rebuilt prepare section, whatever its status, leaves the bound
log, the batch being rebuilt and the table alone. -/
theorem dispatch_counted_frame {r : Record} (hr : r.IsCounted = true)
    (hst : st.rebuildingTrx = none) :
    ∃ n es, Advances st n es ((handlerWith env replay).dispatch r st).2.2 := by
  cases r with
  | put cf k v =>
      exact countedCallback_frame (fun c s =>
        writesOne_frame (writesOne_of_emitsOne env cf s (emitsOne_putValue env cf s k v c))) hst
  | delete cf k =>
      exact countedCallback_frame (fun _ s => writesOne_frame (writesOne_deleteImpl env cf s _ _ _))
        hst
  | singleDelete cf k =>
      exact countedCallback_frame (fun _ s => writesOne_frame (writesOne_deleteImpl env cf s _ _ _))
        hst
  | deleteRange cf k e =>
      refine countedCallback_frame (fun c s => ?_) hst
      by_cases hs : env.hasDb = true ∧ c.deleteRangeSupported = false
      · simp only [hs, and_self, if_true]
        exact ⟨0, [], Advances.refl s⟩
      · simp only [if_neg hs]
        exact writesOne_frame (writesOne_deleteImpl env cf s _ _ _)
  | merge cf k v =>
      exact countedCallback_frame (fun c s =>
        writesOne_frame (writesOne_of_emitsOne env cf s (emitsOne_mergeValue env cf s k v c))) hst
  | _ => cases hr

/-- A counted record: appended to the batch being rebuilt, or applied without reaching the
table. -/
theorem dispatch_counted_tableFrom {r : Record} (hr : r.IsCounted = true) (hs : r.Small)
    (st : InserterState) : TableFrom [] st ((handlerWith env replay).dispatch r st).2.2 := by
  cases hst : st.rebuildingTrx with
  | some trx =>
      have hm : r.IsMarker = false := by cases r <;> first | rfl | cases hr
      rw [dispatch_rebuilding hm hst]
      intro hc
      refine ⟨⟨fun t ht => ?_, hc.recovered⟩, fun _ _ => rfl⟩
      cases ht
      exact (hc.rebuilding trx hst).build_rebuildOps hs
  | none =>
      obtain ⟨n, es, ha⟩ := dispatch_counted_frame replay hr hst
      exact .of_advances ha

theorem markBeginPrepare_tableFrom (st : InserterState) :
    TableFrom [] st (markBeginPrepare env st).2 := by
  unfold markBeginPrepare
  dsimp only
  split
  · split
    · intro hc
      exact ⟨⟨fun t ht => (by cases ht; exact CountedOnly.new 0), hc.recovered⟩, fun _ _ => rfl⟩
    · exact .of_advances (((Advances.refl st).after_check _ _).after_check _ _)
  · exact .of_advances ((((Advances.refl st).after_check _ _).after_check _ _).after_check _ _)

theorem markEndPrepare_tableFrom (x : Bytes) (st : InserterState) :
    TableFrom [x] st (markEndPrepare env x st).2 := by
  unfold markEndPrepare
  dsimp only
  split
  · intro hc
    refine ⟨⟨fun t ht => (by cases ht), fun y t b hy hb => ?_⟩, fun y hy => ?_⟩
    · simp only [insertRecoveredTransaction, check_rebuildingTrx, check_recovered] at hy
      split at hy
      · cases hy
        exact hc.rebuilding b hb
      · exact hc.recovered y t b hy hb
    · simp [insertRecoveredTransaction, List.mem_singleton.not.mp hy]
  · exact .of_advances
      (((((Advances.refl st).after_check _ _).after_check _ _).after_check _ _).after_check _ _)

theorem markRollback_tableFrom (x : Bytes) (st : InserterState) :
    TableFrom [x] st (markRollback env x st).2 := by
  unfold markRollback
  dsimp only
  split
  · intro hc
    refine ⟨(hc.delete x).congr rfl rfl, fun y hy => ?_⟩
    simp [deleteRecoveredTransaction, List.mem_singleton.not.mp hy]
  · exact .of_advances ((Advances.refl st).after_check _ _)

/-- A commit marker: the replay of a counted-only batch, then the transaction leaves the
table when the replay succeeds. -/
theorem markCommit_tableFrom (hrep : ∀ b st, CountedOnly b → TableFrom [] st (replay b st).2)
    (x : Bytes) (st : InserterState) : TableFrom [x] st (markCommit env replay x st).2 := by
  unfold markCommit
  dsimp only
  split
  · split
    · exact .of_advances ((Advances.refl st).after_check _ _)
    rename_i t ht
    split
    · exact .of_advances ((((Advances.refl st).after_check _ _).after_check _ _).after_check _ _)
    rename_i b hb
    intro hc
    obtain ⟨hc', hk⟩ := hrep b { (st.check env.hasDb "db_").check
      ((st.check env.hasDb "db_").logNumberRef == 0) "log_number_ref_ == 0" with
        logNumberRef := t.logNumber } (hc.recovered x t b ht hb) (hc.congr rfl rfl)
    dsimp only at hk
    split
    · refine ⟨(hc'.delete x).congr rfl rfl, fun y hy => ?_⟩
      show deleteRecoveredTransaction x _ y = _
      rw [deleteRecoveredTransaction, if_neg (List.mem_singleton.not.mp hy)]
      exact hk y (List.not_mem_nil y)
    · exact ⟨hc'.congr rfl rfl, fun y _ => hk y (List.not_mem_nil y)⟩
  · exact .of_advances ((Advances.refl st).after_check _ _)

/-- **One callback** keeps the prepared transactions counted-only and changes the table at most
under the xid of its record, given that the replay of a counted-only batch keeps them and
leaves the table alone. -/
theorem dispatch_tableFrom (hrep : ∀ b st, CountedOnly b → TableFrom [] st (replay b st).2)
    {r : Record} (hs : r.Small) (st : InserterState) :
    TableFrom r.xids st ((handlerWith env replay).dispatch r st).2.2 := by
  cases hc : r.IsCounted
  · cases r with
    | logData _ | noop => exact .refl _ _
    | beginPrepare => exact markBeginPrepare_tableFrom st
    | endPrepare x => exact markEndPrepare_tableFrom x st
    | commit x => exact markCommit_tableFrom replay hrep x st
    | rollback x => exact markRollback_tableFrom x st
    | _ => cases hc
  · exact (dispatch_counted_tableFrom replay hc hs st).mono (List.nil_subset _)

end Callbacks

/-! ## Whole runs -/

/-- **A replay never reaches the table**: iterating a counted-only batch, at any depth, keeps
the prepared transactions counted-only and leaves the table as it is. -/
theorem iterate_countedOnly_tableFrom (env : Env) (depth : Nat) {b : WriteBatch}
    (hb : CountedOnly b) (st : InserterState) :
    TableFrom [] st (b.iterate (memTableInserter env depth) st).2 := by
  obtain ⟨replay, hi⟩ := memTableInserter_eq env depth
  rw [hi]
  exact Handler.iterate_preserves_on _ _ (TableFrom.refl _) TableFrom.trans
    (fun _ => TableFrom.refl _ _) b
    (fun r hr st => dispatch_counted_tableFrom replay (hb.readRecords_counted r hr)
      (small_of_mem_readRecords hr) st) st

/-- A whole `Iterate`, at the xids of the markers at the front of the payload. -/
theorem iterate_tableFrom (env : Env) (depth : Nat) (b : WriteBatch) (st : InserterState) :
    TableFrom ((readRecords (b.rep.drop kHeader)).1.flatMap Record.xids) st
      (b.iterate (memTableInserter env depth) st).2 := by
  have hdisp : ∀ replay : WriteBatch → InserterState → Status × InserterState,
      (∀ b st, CountedOnly b → TableFrom [] st (replay b st).2) →
      ∀ r ∈ (readRecords (b.rep.drop kHeader)).1, ∀ st,
        TableFrom ((readRecords (b.rep.drop kHeader)).1.flatMap Record.xids) st
          ((handlerWith env replay).dispatch r st).2.2 := fun replay hrep r hr st =>
    (dispatch_tableFrom replay hrep (small_of_mem_readRecords hr) st).mono
      fun _ hx => List.mem_flatMap.mpr ⟨r, hr, hx⟩
  cases depth with
  | zero =>
      exact Handler.iterate_preserves_on _ _ (TableFrom.refl _) TableFrom.trans
        (fun _ => .refl _ _) b (hdisp _ fun _ st _ => .refl _ st) st
  | succ depth =>
      exact Handler.iterate_preserves_on _ _ (TableFrom.refl _) TableFrom.trans
        (fun _ => .refl _ _) b (hdisp _ fun _ st hb => iterate_countedOnly_tableFrom env depth hb st) st

/-- **The table of recovered transactions changes only at the batch's own markers.** In either
mode, at every depth of replays, `Iterate` of any bytes from a state whose prepared
transactions are counted-only ends in a state where they still are, the batch being rebuilt
and every batch of the DB's table, and whose table differs only under the xids of the
`EndPrepare`, `Commit` and `Rollback` records at the front of the payload. A replayed
transaction shows the inserter counted records only, so no replay changes the table. -/
theorem iterate_keeps_recovered (env : Env) (depth : Nat) (b : WriteBatch) {st : InserterState}
    (hst : st.TrxCounted) :
    (b.iterate (memTableInserter env depth) st).2.TrxCounted ∧
      ∀ x, x ∉ (readRecords (b.rep.drop kHeader)).1.flatMap Record.xids →
        (b.iterate (memTableInserter env depth) st).2.recovered x = st.recovered x :=
  iterate_tableFrom env depth b st hst

theorem trxCounted_start (sequence : UInt64) :
    (InserterState.start sequence fun _ => none).TrxCounted :=
  ⟨fun _ h => (by cases h), fun _ _ _ h => (by cases h)⟩

theorem iterate_keeps_recovered_preparedPut :
    (InserterState.start 0 fun _ => none).TrxCounted ∧
      (preparedPut.iterate (memTableInserter (Env.plain 1) 1)
        (InserterState.start 0 fun _ => none)).2.TrxCounted ∧
      ∀ x, x ∉ (readRecords (preparedPut.rep.drop kHeader)).1.flatMap Record.xids →
        (preparedPut.iterate (memTableInserter (Env.plain 1) 1)
          (InserterState.start 0 fun _ => none)).2.recovered x = none :=
  ⟨trxCounted_start 0, iterate_keeps_recovered (Env.plain 1) 1 preparedPut (trxCounted_start 0)⟩

end RocksBatch
