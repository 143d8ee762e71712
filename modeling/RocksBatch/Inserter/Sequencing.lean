import RocksBatch.Inserter.MemTableInserter
import Mathlib.Data.UInt

set_option autoImplicit false

/-! # Sequence numbers

Outside a prepare section being rebuilt, every counted callback of the inserter that
returns OK consumes one sequence number and makes at most one change to a memtable, at
that number and on the record's own column family (`Block`); the other callbacks consume
none and make no call on a memtable. Over a run this says that the calls of the records,
in order, are blocks at consecutive sequence numbers (`Sequenced`).

* `iterate_normal`: one batch in normal mode, from any inserter state.
* `insertInto_sequences`: a write group gets the sequences `s0`, `s0 + c₁`, ... and its calls
  are blocks at consecutive numbers from `s0`; one batch ends at `Sequence + Count`.
-/

namespace RocksBatch

open MemTableInserter InserterState

/-! ## Blocks of calls -/

/-- The calls one counted record on column family `cf` makes at sequence `s`: all are on
`cf`, at most one changes the memtable and it is at `s`, and there are none when `cf` is
missing. -/
structure Block (env : Env) (cf : UInt32) (s : UInt64) (es : List Effect) : Prop where
  on_cf : ∀ e ∈ es, e.cf = cf
  mutations : es.filterMap Effect.mutation? = [] ∨ es.filterMap Effect.mutation? = [s]
  missing : env.columnFamily cf = none → es = []

/-- **The calls of a run of `rs` from sequence `s`**: each counted record in turn makes a
block at the next sequence number, the others make no call. -/
inductive Sequenced (env : Env) : UInt64 → List Record → List Effect → Prop
  | nil (s : UInt64) : Sequenced env s [] []
  | uncounted {s : UInt64} {r : Record} {rs : List Record} {es : List Effect} :
      r.IsCounted = false → Sequenced env s rs es → Sequenced env s (r :: rs) es
  | counted {s : UInt64} {r : Record} {rs : List Record} {e es : List Effect} :
      r.IsCounted = true → Block env r.cf s e → Sequenced env (s + 1) rs es →
      Sequenced env s (r :: rs) (e ++ es)

theorem Sequenced.append {env : Env} {s : UInt64} {rs ss : List Record} {es fs : List Effect}
    (hr : Sequenced env s rs es) (hs : Sequenced env (s + (countCounted rs).toUInt64) ss fs) :
    Sequenced env s (rs ++ ss) (es ++ fs) := by
  induction hr with
  | nil => simpa using hs
  | uncounted hc _ ih =>
      exact .uncounted hc (ih (by simpa [hc] using hs))
  | counted hc hb _ ih =>
      rw [List.append_assoc]
      refine .counted hc hb (ih ?_)
      rwa [countCounted_cons, if_pos hc, toUInt64_add, toUInt64_one, ← add_assoc] at hs

/-! ## What a callback changes -/

/-- `st'` follows `st` by calls that leave the bound log, the rebuilt batch and the table of
recovered transactions alone: its sequence is `n` further on, and `es` were made. -/
structure Advances (st : InserterState) (n : Nat) (es : List Effect) (st' : InserterState) :
    Prop where
  sequence : st'.sequence = st.sequence + n.toUInt64
  effects : st'.effects = st.effects ++ es
  logNumberRef : st'.logNumberRef = st.logNumberRef
  rebuildingTrx : st'.rebuildingTrx = st.rebuildingTrx
  recovered : st'.recovered = st.recovered

namespace Advances

variable {st st' st'' : InserterState} {n m : Nat} {es fs : List Effect}

theorem refl (st : InserterState) : Advances st 0 [] st :=
  ⟨by simp, by simp, rfl, rfl, rfl⟩

theorem trans (h : Advances st n es st') (h' : Advances st' m fs st'') :
    Advances st (n + m) (es ++ fs) st'' :=
  ⟨by rw [h'.sequence, h.sequence, toUInt64_add, add_assoc], by rw [h'.effects, h.effects,
    List.append_assoc], h'.logNumberRef.trans h.logNumberRef,
    h'.rebuildingTrx.trans h.rebuildingTrx, h'.recovered.trans h.recovered⟩

theorem bump (st : InserterState) : Advances st 1 [] st.bump :=
  ⟨rfl, by simp, rfl, rfl, rfl⟩

theorem emit (st : InserterState) (e : Effect) : Advances st 0 [e] (st.emit e) :=
  ⟨by simp, rfl, rfl, rfl, rfl⟩

theorem check (st : InserterState) (c : Bool) (cond : String) :
    Advances st 0 [] (st.check c cond) :=
  ⟨by simp, by simp, rfl, rfl, rfl⟩

theorem after_check (h : Advances st n es st') (c : Bool) (cond : String) :
    Advances st n es (st'.check c cond) := by
  simpa using h.trans (Advances.check st' c cond)

end Advances

section Callbacks

variable (env : Env) (cfId : UInt32) (st : InserterState)

/-- A memtable write at the current sequence number: calls on `cfId`, at most one of them a
change at that number. -/
def EmitsOne (st' : InserterState) : Prop :=
  ∃ es, Advances st 0 es st' ∧ (∀ e ∈ es, e.cf = cfId) ∧
    (es.filterMap Effect.mutation? = [] ∨ es.filterMap Effect.mutation? = [st.sequence])

theorem emitsOne_emit (e : Effect) (hc : e.cf = cfId)
    (hm : e.mutation? = none ∨ e.mutation? = some st.sequence) :
    EmitsOne cfId st (st.emit e) := by
  refine ⟨[e], ⟨by simp, rfl, rfl, rfl, rfl⟩, by simpa using hc, ?_⟩
  rcases hm with hm | hm <;> simp [hm]

theorem emitsOne_add (type : ValueType) (key value : Bytes) :
    EmitsOne cfId st (st.emit (.add cfId st.sequence type key value)) :=
  emitsOne_emit cfId st _ rfl (.inr rfl)

/-- A call that changes no memtable, then a write. -/
theorem EmitsOne.after_emit {e : Effect} (hc : e.cf = cfId) (hm : e.mutation? = none)
    {st' : InserterState} (h : EmitsOne cfId (st.emit e) st') : EmitsOne cfId st st' := by
  obtain ⟨es, ha, hcf, hmu⟩ := h
  refine ⟨e :: es, by simpa using (Advances.emit st e).trans ha, ?_, ?_⟩
  · simpa [hc] using hcf
  · simpa [hm] using hmu

theorem emitsOne_putValue (key value : Bytes) (cf : ColumnFamily) :
    EmitsOne cfId st (putValue env cfId key value cf st) := by
  unfold putValue
  split
  · exact emitsOne_add cfId st _ _ _
  · split
    · exact emitsOne_emit cfId st _ rfl (.inr rfl)
    · rename_i callback _
      cases hu : env.updateCallback cfId st.sequence key value
      · refine @EmitsOne.after_emit cfId st (.updateCallback cfId st.sequence key value false) rfl
          (by simp [Effect.mutation?]) _ ?_
        simp only [hu, Bool.false_eq_true, if_false]
        split
        · exact emitsOne_add cfId _ _ _ _
        · exact emitsOne_add cfId _ _ _ _
        · exact ⟨[], Advances.refl _, by simp, by simp⟩
      · simpa [hu] using emitsOne_emit cfId st (.updateCallback cfId st.sequence key value true) rfl
          (.inr (by simp [Effect.mutation?]))

theorem emitsOne_mergeValue (key value : Bytes) (cf : ColumnFamily) :
    EmitsOne cfId st (mergeValue env cfId key value cf st) := by
  unfold mergeValue
  dsimp only
  split <;> exact emitsOne_add cfId st _ _ _

/-- The write of a counted callback that returns OK: a memtable write at the current
sequence number, which is then consumed. -/
def WritesOne (st' : InserterState) : Prop :=
  ∃ es, Advances st 1 es st' ∧ (∀ e ∈ es, e.cf = cfId) ∧
    (es.filterMap Effect.mutation? = [] ∨ es.filterMap Effect.mutation? = [st.sequence])

theorem writesOne_of_emitsOne {st' : InserterState} (h : EmitsOne cfId st st') :
    WritesOne cfId st (checkMemtableFull env cfId st'.bump) := by
  obtain ⟨es, ha, hcf, hmu⟩ := h
  have hb := ha.trans (Advances.bump st')
  unfold checkMemtableFull
  split
  · refine ⟨es ++ [.scheduleFlush cfId], by simpa using hb.trans (Advances.emit _ _), ?_, ?_⟩
    · intro e he
      rcases List.mem_append.mp he with he | he
      · exact hcf e he
      · rw [List.mem_singleton.mp he]
        rfl
    · simpa [Effect.mutation?] using hmu
  · exact ⟨es, by simpa using hb, hcf, hmu⟩

/-- `SeekToColumnFamily` either skips the record, changing nothing, or finds its column
family and makes calls that change no memtable. -/
theorem seekToColumnFamily_cases :
    (∃ s, seekToColumnFamily env cfId st = (none, s, st)) ∨
      ∃ cf st' es, env.columnFamily cfId = some cf ∧
        seekToColumnFamily env cfId st = (some cf, .ok, st') ∧ Advances st 0 es st' ∧
        (∀ e ∈ es, e.cf = cfId) ∧ es.filterMap Effect.mutation? = [] := by
  unfold seekToColumnFamily
  split
  · exact .inl ⟨_, rfl⟩
  · rename_i cf hcf
    split
    · exact .inl ⟨_, rfl⟩
    · have hv : Advances st 0 [] { st with hasValidWrites := true } :=
        ⟨by simp, by simp, rfl, rfl, rfl⟩
      dsimp only
      split
      · exact .inr ⟨cf, _, [.refLogContainingPrepSection cfId st.logNumberRef], hcf, rfl,
          by simpa using hv.trans (Advances.emit _ _), by simp [Effect.cf],
          by simp [Effect.mutation?]⟩
      · exact .inr ⟨cf, _, [], hcf, rfl, hv, by simp, rfl⟩

/-- **A counted callback outside a rebuilt prepare section**: when it returns OK it has
consumed one sequence number and made one block of calls. -/
theorem countedCallback_advances {rebuild : WriteBatch → WriteBatch}
    {write : ColumnFamily → InserterState → Status × InserterState}
    (hw : ∀ cf st', (write cf st').1 = .ok → WritesOne cfId st' (write cf st').2)
    (hst : st.rebuildingTrx = none) (hok : (countedCallback env cfId rebuild write st).1 = .ok) :
    ∃ es, Advances st 1 es (countedCallback env cfId rebuild write st).2 ∧
      Block env cfId st.sequence es := by
  unfold countedCallback at hok ⊢
  rw [hst] at hok ⊢
  rcases seekToColumnFamily_cases env cfId st with ⟨s, hs⟩ | ⟨cf, st', es, hcf, hs, ha, hcfs, hmu⟩
  · rw [hs]
    exact ⟨[], Advances.bump st, ⟨by simp, by simp, fun _ => rfl⟩⟩
  · rw [hs] at hok ⊢
    obtain ⟨fs, hw, hcfw, hmuw⟩ := hw cf st' hok
    refine ⟨es ++ fs, by simpa using ha.trans hw, ⟨?_, ?_, by simp [hcf]⟩⟩
    · simp only [List.mem_append]
      rintro e (he | he)
      exacts [hcfs e he, hcfw e he]
    · simpa [List.filterMap_append, hmu, ha.sequence] using hmuw

theorem writesOne_deleteImpl (key value : Bytes) (type : ValueType) :
    WritesOne cfId st (deleteImpl env cfId key value type st).2 :=
  writesOne_of_emitsOne env cfId st (emitsOne_add cfId st type key value)

end Callbacks

/-! ## One record -/

section Dispatch

variable {env : Env} (replay : WriteBatch → InserterState → Status × InserterState)
  {st : InserterState}

/-- **A counted record outside a rebuilt prepare section**, in either mode: when its
callback returns OK it has consumed one sequence number and made one block of calls. -/
theorem dispatch_counted {r : Record} (hr : r.IsCounted = true) (hst : st.rebuildingTrx = none)
    (hok : ((handlerWith env replay).dispatch r st).1 = .ok) :
    ∃ es, Advances st 1 es ((handlerWith env replay).dispatch r st).2.2 ∧
      Block env r.cf st.sequence es := by
  cases r with
  | put cf k v =>
      exact countedCallback_advances env cf st
        (fun c s _ => writesOne_of_emitsOne env cf s (emitsOne_putValue env cf s k v c)) hst hok
  | delete cf k =>
      exact countedCallback_advances env cf st (fun _ s _ => writesOne_deleteImpl env cf s _ _ _)
        hst hok
  | singleDelete cf k =>
      exact countedCallback_advances env cf st (fun _ s _ => writesOne_deleteImpl env cf s _ _ _)
        hst hok
  | deleteRange cf k e =>
      refine countedCallback_advances env cf st (fun c s hw => ?_) hst hok
      by_cases hs : env.hasDb = true ∧ c.deleteRangeSupported = false
      · simp only [hs, and_self, if_true] at hw
        cases hw
      · simp only [if_neg hs]
        exact writesOne_deleteImpl env cf s _ _ _
  | merge cf k v =>
      exact countedCallback_advances env cf st
        (fun c s _ => writesOne_of_emitsOne env cf s (emitsOne_mergeValue env cf s k v c)) hst hok
  | _ => cases hr

/-- In normal mode the other records consume no sequence number and make no call on a
memtable; their callbacks return OK. -/
theorem dispatch_uncounted_normal (hn : env.recoveringLogNumber = 0) {r : Record}
    (hr : r.IsCounted = false) :
    ((handlerWith env replay).dispatch r st).1 = .ok ∧
      Advances st 0 [] ((handlerWith env replay).dispatch r st).2.2 := by
  have hL : ¬ env.recoveringLogNumber ≠ 0 := not_not.mpr hn
  cases r with
  | logData _ | noop => exact ⟨rfl, Advances.refl st⟩
  | beginPrepare =>
      refine ⟨rfl, ?_⟩
      simp only [Handler.dispatch, handlerWith, markBeginPrepare, if_neg hL]
      exact (((Advances.refl st).after_check _ _).after_check _ _).after_check _ _
  | endPrepare _ =>
      refine ⟨rfl, ?_⟩
      simp only [Handler.dispatch, handlerWith, markEndPrepare, if_neg hL]
      exact ((((Advances.refl st).after_check _ _).after_check _ _).after_check _ _).after_check _ _
  | commit _ =>
      refine ⟨rfl, ?_⟩
      simp only [Handler.dispatch, handlerWith, markCommit, if_neg hL]
      exact (Advances.refl st).after_check _ _
  | rollback _ =>
      refine ⟨rfl, ?_⟩
      simp only [Handler.dispatch, handlerWith, markRollback, hL, false_and, if_false]
      exact (Advances.refl st).after_check _ _
  | _ => cases hr

/-- **A run in normal mode**: when it returns OK, the counted records have consumed one
sequence number each, and their calls are blocks at consecutive numbers. -/
theorem runRecords_normal (hn : env.recoveringLogNumber = 0) :
    ∀ (rs : List Record) (found : Nat) (st : InserterState), st.rebuildingTrx = none →
      ((handlerWith env replay).runRecords rs found st).1 = .ok →
      ∃ es, Advances st (countCounted rs) es ((handlerWith env replay).runRecords rs found st).2.2 ∧
        Sequenced env st.sequence rs es
  | [], _, st, _, _ => ⟨[], Advances.refl st, .nil _⟩
  | r :: rs, found, st, hst, hok => by
      have hc : (handlerWith env replay).continue st = (true, st) := rfl
      rw [Handler.runRecords, hc] at hok ⊢
      dsimp only at hok ⊢
      rcases hd : (handlerWith env replay).dispatch r st with ⟨s, n, st1⟩
      rw [hd] at hok
      cases s with
      | ok =>
          dsimp only at hok ⊢
          cases hr : r.IsCounted
          · have ha : Advances st 0 [] st1 := by
              simpa [hd] using (@dispatch_uncounted_normal env replay st hn r hr).2
            obtain ⟨es, ha', hseq⟩ := runRecords_normal hn rs _ st1 (ha.rebuildingTrx.trans hst) hok
            refine ⟨es, by simpa [hr] using ha.trans ha', .uncounted hr ?_⟩
            simpa [ha.sequence] using hseq
          · obtain ⟨e, ha, hb⟩ := dispatch_counted replay hr hst (by rw [hd])
            simp only [hd] at ha
            obtain ⟨es, ha', hseq⟩ := runRecords_normal hn rs _ st1 (ha.rebuildingTrx.trans hst) hok
            refine ⟨e ++ es, by simpa [hr, Nat.add_comm] using ha.trans ha', .counted hr hb ?_⟩
            simpa [ha.sequence] using hseq
      | _ => cases hok

end Dispatch

/-! ## Batches and write groups -/

theorem memTableInserter_eq (env : Env) (depth : Nat) :
    ∃ replay, memTableInserter env depth = handlerWith env replay := by
  cases depth <;> exact ⟨_, rfl⟩

theorem memTableInserter_continue (env : Env) (depth : Nat) (st : InserterState) :
    ((memTableInserter env depth).continue st).1 = true := by
  cases depth <;> rfl

/-- The sequences the batches of a write group start at: `s0`, then each past the
previous by its count. -/
def sequenceStarts (s0 : UInt64) : List Nat → List UInt64
  | [] => []
  | c :: cs => s0 :: sequenceStarts (s0 + c.toUInt64) cs

section Normal

variable {env : Env} (hn : env.recoveringLogNumber = 0) (depth : Nat)
include hn

/-- **A batch in normal mode**: when `Iterate` returns OK, the payload reads as records
that the header counts; their calls are blocks at consecutive sequence numbers from the
inserter's, which ends that count further on. -/
theorem iterate_normal {b : WriteBatch} {st : InserterState} (hst : st.rebuildingTrx = none)
    (hok : (b.iterate (memTableInserter env depth) st).1 = .ok) :
    ∃ rs es, Parses (b.rep.drop kHeader) rs ∧ b.count = countCounted rs ∧
      Advances st (countCounted rs) es (b.iterate (memTableInserter env depth) st).2 ∧
      Sequenced env st.sequence rs es := by
  obtain ⟨seq, p, rs, hrep, hp, hc, hrun⟩ :=
    b.parses_of_iterate_ok _ (memTableInserter_continue env depth) st hok
  obtain ⟨replay, hi⟩ := memTableInserter_eq env depth
  rw [hi] at hrun
  obtain ⟨es, ha, hs⟩ := runRecords_normal replay hn rs 0 st hst (by rw [hrun])
  rw [hrun, ← hi] at ha
  exact ⟨rs, es, by rwa [hrep, drop_kHeader_headerRep],
    by rw [b.count_headerRep _ _ _ hrep, toInt32_toUInt32 hc], ha, hs⟩

theorem insertIntoGroup_normal : ∀ (ws : List Writer) (st : InserterState),
    st.rebuildingTrx = none → (WriteBatchInternal.insertIntoGroup env depth ws st).1 = .ok →
    ∃ rss es,
      List.Forall₂ (fun (w : Writer) rs =>
          Parses (w.batch.rep.drop kHeader) rs ∧ w.batch.count = countCounted rs)
        ((WriteBatchInternal.insertIntoGroup env depth ws st).2.1.filter (·.shouldWriteToMemtable)) rss ∧
      ((WriteBatchInternal.insertIntoGroup env depth ws st).2.1.filter (·.shouldWriteToMemtable)).map
        (·.batch.rep.drop 8) = (ws.filter (·.shouldWriteToMemtable)).map (·.batch.rep.drop 8) ∧
      ((WriteBatchInternal.insertIntoGroup env depth ws st).2.1.filter (·.shouldWriteToMemtable)).map
        (·.batch.sequence) = sequenceStarts st.sequence (rss.map countCounted) ∧
      (WriteBatchInternal.insertIntoGroup env depth ws st).2.2.sequence =
        st.sequence + (rss.map countCounted).sum.toUInt64 ∧
      (WriteBatchInternal.insertIntoGroup env depth ws st).2.2.effects = st.effects ++ es ∧
      (WriteBatchInternal.insertIntoGroup env depth ws st).2.2.rebuildingTrx = none ∧
      Sequenced env st.sequence rss.flatten es
  | [], st, hst, _ => ⟨[], [], .nil, rfl, rfl, by simp [WriteBatchInternal.insertIntoGroup],
      by simp [WriteBatchInternal.insertIntoGroup], hst, .nil _⟩
  | w :: ws, st, hst, hok => by
      unfold WriteBatchInternal.insertIntoGroup at hok ⊢
      split
      · rename_i hw
        rw [if_pos hw] at hok
        dsimp only at hok ⊢
        rcases hi : (w.batch.setSequence st.sequence).iterate (memTableInserter env depth)
          { st with logNumberRef := w.logRef } with ⟨s, st1⟩
        rw [hi] at hok
        dsimp only at hok ⊢
        by_cases hs : s = .ok
        · subst hs
          rw [if_pos rfl] at hok ⊢
          obtain ⟨rs, es1, hp, hc, ha1, hseq1⟩ :=
            @iterate_normal env hn depth _ { st with logNumberRef := w.logRef } hst (by rw [hi])
          rw [hi] at ha1
          obtain ⟨rss, es2, hf, hd, hsq, hseq, heff, hrb, hseq2⟩ :=
            insertIntoGroup_normal ws st1 (ha1.rebuildingTrx.trans hst) hok
          have hs1 : st1.sequence = st.sequence + (countCounted rs).toUInt64 := ha1.sequence
          refine ⟨rs :: rss, es1 ++ es2, ?_, ?_, ?_, ?_, ?_, hrb, ?_⟩
          · simp only [List.filter_cons, hw, if_true]
            exact .cons ⟨hp, hc⟩ hf
          · simpa [hw] using hd
          · simpa [hw, sequenceStarts, hs1] using hsq
          · rw [hseq, hs1, List.map_cons, List.sum_cons, toUInt64_add, add_assoc]
          · rw [heff, ha1.effects, List.append_assoc]
          · exact hseq1.append (by rwa [← hs1])
        · rw [if_neg hs] at hok
          exact absurd hok hs
      · rename_i hw
        rw [if_neg hw] at hok
        obtain ⟨rss, es, hf, hd, hsq, hseq, heff, hrb, hseq2⟩ := insertIntoGroup_normal ws st hst hok
        exact ⟨rss, es, by simpa [hw] using hf, by simpa [hw] using hd, by simpa [hw] using hsq,
          hseq, heff, hrb, hseq2⟩

theorem insertIntoBatch_normal {b : WriteBatch} {table : RecoveredTable}
    (hok : (WriteBatchInternal.insertIntoBatch env depth b table).1 = .ok) :
    0 ≤ b.count ∧ (WriteBatchInternal.insertIntoBatch env depth b table).2.sequence =
      b.sequence + b.count.toNat.toUInt64 := by
  obtain ⟨rs, es, -, hc, ha, -⟩ :=
    @iterate_normal env hn depth b (InserterState.start b.sequence table) rfl hok
  rw [hc]
  exact ⟨Int.natCast_nonneg _, by
    rw [WriteBatchInternal.insertIntoBatch, ha.sequence, Int.toNat_natCast]; rfl⟩

end Normal

/-- **Sequence numbers are contiguous** in normal mode. When `InsertInto` of a write group
returns OK, the batches that write to the memtable, unchanged but for their sequence, get
the sequences `s0`, `s0 + c₁`, ... (`cᵢ` the header count of the `i`-th of them, the number
of counted records its payload reads as); the calls on memtables are, in payload order, a
block per counted record at consecutive sequence numbers from `s0`; and the inserter ends at
`s0 + Σ cᵢ`. When `InsertInto` of one batch returns OK, the last sequence used is
`Sequence + Count`. -/
theorem insertInto_sequences {env : Env} (hn : env.recoveringLogNumber = 0) (depth : Nat) :
    (∀ (ws : List Writer) (s0 : UInt64) (table : RecoveredTable),
      (WriteBatchInternal.insertInto env depth ws s0 table).1 = .ok →
      ∃ rss : List (List Record),
        List.Forall₂ (fun (w : Writer) rs =>
            Parses (w.batch.rep.drop kHeader) rs ∧ w.batch.count = countCounted rs)
          ((WriteBatchInternal.insertInto env depth ws s0 table).2.1.filter
            (·.shouldWriteToMemtable)) rss ∧
        ((WriteBatchInternal.insertInto env depth ws s0 table).2.1.filter
            (·.shouldWriteToMemtable)).map (·.batch.rep.drop 8) =
          (ws.filter (·.shouldWriteToMemtable)).map (·.batch.rep.drop 8) ∧
        ((WriteBatchInternal.insertInto env depth ws s0 table).2.1.filter
            (·.shouldWriteToMemtable)).map (·.batch.sequence) =
          sequenceStarts s0 (rss.map countCounted) ∧
        Sequenced env s0 rss.flatten (WriteBatchInternal.insertInto env depth ws s0 table).2.2.effects ∧
        (WriteBatchInternal.insertInto env depth ws s0 table).2.2.sequence =
          s0 + (rss.map countCounted).sum.toUInt64) ∧
    ∀ (b : WriteBatch) (table : RecoveredTable),
      (WriteBatchInternal.insertIntoBatch env depth b table).1 = .ok →
      0 ≤ b.count ∧ (WriteBatchInternal.insertIntoBatch env depth b table).2.sequence =
        b.sequence + b.count.toNat.toUInt64 := by
  refine ⟨fun ws s0 table hok => ?_, fun b table hok => insertIntoBatch_normal hn depth hok⟩
  obtain ⟨rss, es, hf, hd, hsq, hseq, heff, -, hs⟩ :=
    insertIntoGroup_normal hn depth ws (InserterState.start s0 table) rfl hok
  exact ⟨rss, hf, hd, hsq, by rwa [WriteBatchInternal.insertInto, heff], hseq⟩

/-- A batch of one `Put` on the default column family, over its bytes. -/
def onePutBatch : WriteBatch := WriteBatch.ofRep (headerRep 0 1 (encodeRecords [.put 0 [1] [2]]))

/-- A writer of `onePutBatch` that writes to the memtable, with no log bound. -/
def onePutWriter : Writer := ⟨onePutBatch, 0, true, .ok⟩

theorem insertInto_sequences_plain :
    (Env.plain 0).recoveringLogNumber = 0 ∧
      (WriteBatchInternal.insertInto (Env.plain 0) 0 [onePutWriter] 5 fun _ => none).1 = .ok ∧
      (∃ rss : List (List Record),
        List.Forall₂ (fun (w : Writer) rs =>
            Parses (w.batch.rep.drop kHeader) rs ∧ w.batch.count = countCounted rs)
          ((WriteBatchInternal.insertInto (Env.plain 0) 0 [onePutWriter] 5 fun _ => none).2.1.filter
            (·.shouldWriteToMemtable)) rss ∧
        ((WriteBatchInternal.insertInto (Env.plain 0) 0 [onePutWriter] 5 fun _ => none).2.1.filter
            (·.shouldWriteToMemtable)).map (·.batch.rep.drop 8) =
          ([onePutWriter].filter (·.shouldWriteToMemtable)).map (·.batch.rep.drop 8) ∧
        ((WriteBatchInternal.insertInto (Env.plain 0) 0 [onePutWriter] 5 fun _ => none).2.1.filter
            (·.shouldWriteToMemtable)).map (·.batch.sequence) =
          sequenceStarts 5 (rss.map countCounted) ∧
        Sequenced (Env.plain 0) 5 rss.flatten
          (WriteBatchInternal.insertInto (Env.plain 0) 0 [onePutWriter] 5 fun _ => none).2.2.effects ∧
        (WriteBatchInternal.insertInto (Env.plain 0) 0 [onePutWriter] 5 fun _ => none).2.2.sequence =
          5 + (rss.map countCounted).sum.toUInt64) ∧
      (WriteBatchInternal.insertIntoBatch (Env.plain 0) 0 onePutBatch fun _ => none).1 = .ok ∧
      0 ≤ onePutBatch.count ∧
      (WriteBatchInternal.insertIntoBatch (Env.plain 0) 0 onePutBatch fun _ => none).2.sequence =
        onePutBatch.sequence + onePutBatch.count.toNat.toUInt64 := by
  have hp : Parses (encodeRecords [Record.put 0 [1] [2]]) [.put 0 [1] [2]] :=
    parses_encodeRecords (by decide)
  have hg : (WriteBatchInternal.insertInto (Env.plain 0) 0 [onePutWriter] 5 fun _ => none).1 = .ok := by
    simp only [WriteBatchInternal.insertInto, WriteBatchInternal.insertIntoGroup, onePutWriter,
      InserterState.start, if_true,
      WriteBatch.iterate_eq_runRecords _ _ _ (WriteBatch.setSequence_rep onePutBatch 0 1 _ rfl 5) hp]
    rfl
  have hb : (WriteBatchInternal.insertIntoBatch (Env.plain 0) 0 onePutBatch fun _ => none).1 = .ok := by
    rw [WriteBatchInternal.insertIntoBatch,
      WriteBatch.iterate_eq_runRecords _ _ _ (rfl : onePutBatch.rep = _) hp]
    rfl
  exact ⟨rfl, hg, (insertInto_sequences rfl 0).1 _ _ _ hg, hb, (insertInto_sequences rfl 0).2 _ _ hb⟩

end RocksBatch
