import RocksBatch.Inserter.Recovery
import RocksBatch.Properties.Framing

set_option autoImplicit false

/-! # Recovery refines a transaction manager

What recovery of a log is for, on the level of records (`Recovering`): the DB keeps its
prepared transactions by xid, each as the records of its prepare section; `BeginPrepare`
opens a section, `EndPrepare(x)` files it under `x`, `Commit(x)` applies the counted records
of `x` and drops `x`, `Rollback(x)` drops it, and any other record is applied, or joins the
open section. The records applied, in order, are the committed view of the log. Recovery
cannot go on (`none`) at a prepare section on a DB without 2PC, which `MarkBeginPrepare`
refuses, and at a commit of a transaction filed without a batch, whose null batch
`MarkCommit` dereferences.

The inserter keeps a batch of bytes for each of these lists instead, rebuilt by the appends
of `WriteBatchInternal`, and replays a committed one by decoding it again with `Iterate`.
`Recovering.Abstracts a st` says that every batch of the inserter's state `st` is the one
rebuilt from the records of `a`.

* `dispatch_refines`, `runRecords_refines`: one record, and a run of records, of recovery keep
  `Abstracts`, and make the calls of the records that the abstract step applies (`Applies`).
* `iterate_rebuiltBatch`: the replay of a rebuilt batch, at any depth.
* `iterate_recovery_refines`: in recovery, when no callback fails and the abstract run of the
  records read goes through, `Iterate` of any bytes applies the committed view of those
  records, at consecutive sequence numbers, and leaves the DB's table where the abstract run
  leaves it.
-/

namespace RocksBatch

open MemTableInserter InserterState

/-! ## The abstract state -/

/-- Recovery on the level of records: the DB's prepared transactions by xid (the records of
the prepare section, or `none` for one handed over without a batch), and the records of the
prepare section being rebuilt. -/
structure Recovering where
  table : Bytes → Option (Option (List Record))
  rebuilding : Option (List Record)

namespace Recovering

/-- Records passed to the counted callbacks: inside a prepare section they join it, outside
one they are applied. -/
def take (a : Recovering) (rs : List Record) : List Record × Recovering :=
  match a.rebuilding with
  | some l => ([], { a with rebuilding := some (l ++ rs) })
  | none => (rs, a)

/-- The transaction `x` leaves the table. -/
def erase (a : Recovering) (x : Bytes) : Recovering :=
  { a with table := fun n => if n = x then none else a.table n }

/-- One record of recovery, on a DB that allows 2PC or not: the records it applies and the
state after it, or `none` where recovery cannot go on: a prepare section without 2PC, and a
commit of a transaction filed without a batch. A commit applies the counted records of its
transaction and drops it, unless there are `2^31` or more of them: the replay then fails
the count check of `Iterate`, and the transaction stays. -/
def step (allow2pc : Bool) (a : Recovering) : Record → Option (List Record × Recovering)
  | .beginPrepare => if allow2pc then some ([], { a with rebuilding := some [] }) else none
  | .endPrepare x => some ([], ⟨fun n => if n = x then some a.rebuilding else a.table n, none⟩)
  | .commit x =>
      match a.table x with
      | some (some l) =>
          let t := a.take (l.filter Record.IsCounted)
          some (t.1, if countCounted l < 2 ^ 31 then t.2.erase x else t.2)
      | some none => none
      | none => some ([], a)
  | .rollback x => some ([], a.erase x)
  | r => some (a.take [r])

/-- Recovery of a list of records: the records applied and the state after them, or `none`
when one of the steps cannot go on. -/
def run (allow2pc : Bool) (a : Recovering) : List Record → Option (List Record × Recovering)
  | [] => some ([], a)
  | r :: rs => (a.step allow2pc r).bind fun s =>
      (s.2.run allow2pc rs).map fun t => (s.1 ++ t.1, t.2)

variable (a : Recovering)

@[simp] theorem take_nil : a.take [] = ([], a) := by
  obtain ⟨_, _ | _⟩ := a <;> simp [take]

theorem take_cons (r : Record) (rs : List Record) :
    a.take (r :: rs) = ((a.take [r]).1 ++ ((a.take [r]).2.take rs).1, ((a.take [r]).2.take rs).2) := by
  obtain ⟨_, _ | _⟩ := a <;> simp [take]

end Recovering

/-! ## Refinement -/

/-- `st'` follows `st` by applying the records `out`: the calls made are blocks at
consecutive sequence numbers for the counted records of `out`, and the sequence is past
them. -/
def Applies (env : Env) (st : InserterState) (out : List Record) (st' : InserterState) : Prop :=
  ∃ es, st'.sequence = st.sequence + (countCounted out).toUInt64 ∧
    st'.effects = st.effects ++ es ∧ Sequenced env st.sequence out es

namespace Applies

variable {env : Env} {st st' st'' : InserterState} {out out' : List Record}

theorem refl (st : InserterState) : Applies env st [] st := ⟨[], by simp, by simp, .nil _⟩

/-- Nothing applied: the sequence and the calls are as they were. -/
theorem keep (hs : st'.sequence = st.sequence) (he : st'.effects = st.effects) :
    Applies env st [] st' :=
  ⟨[], by simp [hs], by simp [he], .nil _⟩

theorem trans (h : Applies env st out st') (h' : Applies env st' out' st'') :
    Applies env st (out ++ out') st'' := by
  obtain ⟨es, hs, he, hq⟩ := h
  obtain ⟨fs, hs', he', hq'⟩ := h'
  refine ⟨es ++ fs, ?_, by rw [he', he, List.append_assoc], hq.append (hs ▸ hq')⟩
  rw [hs', hs, countCounted_append, toUInt64_add, add_assoc]

/-- Only the sequences and the calls of the two ends matter. -/
theorem congr {t t' : InserterState} (h : Applies env st out st') (hs : t.sequence = st.sequence)
    (he : t.effects = st.effects) (hs' : t'.sequence = st'.sequence)
    (he' : t'.effects = st'.effects) : Applies env t out t' := by
  obtain ⟨es, h1, h2, h3⟩ := h
  exact ⟨es, by rw [hs', h1, hs], by rw [he', h2, he], hs ▸ h3⟩

end Applies

/-- The inserter's state holds the batches rebuilt from `a`'s records: the batch being rebuilt,
and the batch of each transaction of the DB's table; and `a`'s records are small. -/
structure Recovering.Abstracts (a : Recovering) (st : InserterState) : Prop where
  rebuilding : st.rebuildingTrx = a.rebuilding.map rebuiltBatch
  table : ∀ x, (st.recovered x).map RecoveredTransaction.batch =
    (a.table x).map (Option.map rebuiltBatch)
  small_rebuilding : ∀ l, a.rebuilding = some l → ∀ r ∈ l, r.Small
  small_table : ∀ x l, a.table x = some (some l) → ∀ r ∈ l, r.Small

theorem deleteRecoveredTransaction_of_none {table : RecoveredTable} {x : Bytes}
    (hx : table x = none) : deleteRecoveredTransaction x table = table :=
  funext fun n => by
    unfold deleteRecoveredTransaction
    split <;> simp_all

namespace Recovering.Abstracts

variable {a : Recovering} {st st' : InserterState}

theorem congr (h : a.Abstracts st) (hr : st'.rebuildingTrx = st.rebuildingTrx)
    (ht : st'.recovered = st.recovered) : a.Abstracts st' :=
  ⟨hr.trans h.rebuilding, ht ▸ h.table, h.small_rebuilding, h.small_table⟩

theorem erase (h : a.Abstracts st) (x : Bytes) (hr : st'.rebuildingTrx = st.rebuildingTrx)
    (ht : st'.recovered = deleteRecoveredTransaction x st.recovered) :
    (a.erase x).Abstracts st' := by
  refine ⟨hr.trans h.rebuilding, fun n => ?_, h.small_rebuilding, fun n l hn => ?_⟩
  · rw [ht, deleteRecoveredTransaction, Recovering.erase]
    by_cases hx : n = x
    · simp [hx]
    · simpa [hx] using h.table n
  · by_cases hx : n = x
    · simp [Recovering.erase, hx] at hn
    · exact h.small_table n l (by simpa [Recovering.erase, hx] using hn)

end Recovering.Abstracts

theorem rebuiltBatch_append (l rs : List Record) :
    rebuiltBatch (l ++ rs) = build (rebuiltBatch l) (rs.flatMap Record.rebuildOps) := by
  rw [rebuiltBatch, rebuiltBatch, List.flatMap_append, build_append]

/-! ## Column families on which no callback fails -/

/-- Column families on which no counted callback of the inserter fails: a missing one is
ignored, and with a DB every one holds range deletions. -/
def Env.Accepting (env : Env) : Prop :=
  env.ignoreMissingColumnFamilies = true ∧
    ∀ cfId cf, env.columnFamily cfId = some cf → env.hasDb = true → cf.deleteRangeSupported = true

section Accepting

variable {env : Env} (hacc : env.Accepting)
  (replay : WriteBatch → InserterState → Status × InserterState)
include hacc

theorem seekToColumnFamily_ok (cfId : UInt32) (st : InserterState) :
    (seekToColumnFamily env cfId st).2.1 = .ok := by
  unfold seekToColumnFamily
  split
  · simp [hacc.1]
  · split <;> rfl

theorem countedCallback_ok {cfId : UInt32} {rebuild : WriteBatch → WriteBatch}
    {write : ColumnFamily → InserterState → Status × InserterState}
    (hw : ∀ cf st', env.columnFamily cfId = some cf → (write cf st').1 = .ok) (st : InserterState) :
    (countedCallback env cfId rebuild write st).1 = .ok := by
  unfold countedCallback
  split
  · rfl
  rcases seekToColumnFamily_cases env cfId st with ⟨s, hs⟩ | ⟨cf, st', es, hcf, hs, -⟩ <;> rw [hs]
  · simpa [hs] using seekToColumnFamily_ok hacc cfId st
  · exact hw cf st' hcf

/-- No callback fails: the markers' statuses are dropped, and the counted ones return OK. -/
theorem dispatch_ok (r : Record) (st : InserterState) :
    ((handlerWith env replay).dispatch r st).1 = .ok := by
  cases r with
  | put | delete | singleDelete | merge => exact countedCallback_ok hacc (fun _ _ _ => rfl) st
  | deleteRange cfId k e =>
      refine countedCallback_ok hacc (fun cf s hcf => ?_) st
      dsimp only
      rw [if_neg fun h => Bool.noConfusion ((hacc.2 cfId cf hcf h.1).symm.trans h.2)]
      rfl
  | _ => rfl

theorem runRecords_cons (r : Record) (rs : List Record) (found : Nat) (st : InserterState) :
    (handlerWith env replay).runRecords (r :: rs) found st =
      (handlerWith env replay).runRecords rs (found + ((handlerWith env replay).dispatch r st).2.1)
        ((handlerWith env replay).dispatch r st).2.2 := by
  have hok := dispatch_ok hacc replay r st
  rw [Handler.runRecords, handlerWith_continue]
  dsimp only
  rcases hd : (handlerWith env replay).dispatch r st with ⟨s, n, st'⟩
  rw [hd] at hok
  obtain rfl : s = .ok := hok
  rfl

theorem runRecords_ok : ∀ (rs : List Record) (found : Nat) (st : InserterState),
    ((handlerWith env replay).runRecords rs found st).1 = .ok
  | [], _, _ => rfl
  | r :: rs, found, st => by
      rw [runRecords_cons hacc replay]
      exact runRecords_ok rs _ _

/-! ## One record -/

variable {a : Recovering} {st : InserterState}

/-- A record that is no 2PC marker, outside a prepare section. -/
theorem dispatch_plain {r : Record} (hr : r.IsMarker = false) (hst : st.rebuildingTrx = none) :
    Applies env st [r] ((handlerWith env replay).dispatch r st).2.2 ∧
      ((handlerWith env replay).dispatch r st).2.2.rebuildingTrx = st.rebuildingTrx ∧
      ((handlerWith env replay).dispatch r st).2.2.recovered = st.recovered := by
  cases hc : r.IsCounted
  · have hd : ((handlerWith env replay).dispatch r st).2.2 = st := by
      cases r <;> first | rfl | exact Bool.noConfusion hc | exact Bool.noConfusion hr
    rw [hd]
    exact ⟨⟨[], by simp [countCounted, hc], by simp, .uncounted hc (.nil _)⟩, rfl, rfl⟩
  · obtain ⟨es, ha, hb⟩ := dispatch_counted replay hc hst (dispatch_ok hacc replay r st)
    refine ⟨⟨es, by simp [ha.sequence, countCounted, hc], ha.effects, ?_⟩, ha.rebuildingTrx,
      ha.recovered⟩
    simpa using Sequenced.counted hc hb (.nil _)

/-- A record that is no 2PC marker joins the open section, or is applied. -/
theorem dispatch_take {r : Record} (hr : r.IsMarker = false) (hs : r.Small)
    (ha : a.Abstracts st) :
    Applies env st (a.take [r]).1 ((handlerWith env replay).dispatch r st).2.2 ∧
      (a.take [r]).2.Abstracts ((handlerWith env replay).dispatch r st).2.2 := by
  have hrb := ha.rebuilding
  unfold Recovering.take
  split
  · rename_i l hl
    rw [hl] at hrb
    rw [dispatch_rebuilding hr hrb]
    refine ⟨.keep rfl rfl, ⟨?_, ha.table, fun l' hl' => ?_, ha.small_table⟩⟩
    · simp [rebuiltBatch_append]
    · cases hl'
      simpa [or_imp, forall_and, hs] using ha.small_rebuilding l hl
  · rename_i hl
    rw [hl] at hrb
    obtain ⟨happ, hr', hrec⟩ := dispatch_plain hacc replay hr hrb
    exact ⟨happ, ha.congr hr' hrec⟩

/-- A run of records that are no 2PC markers: they join the open section, or are applied. -/
theorem runRecords_take : ∀ (rs : List Record) (found : Nat) {a : Recovering}
    {st : InserterState}, a.Abstracts st → (∀ r ∈ rs, r.IsMarker = false ∧ r.Small) →
    Applies env st (a.take rs).1 ((handlerWith env replay).runRecords rs found st).2.2 ∧
      (a.take rs).2.Abstracts ((handlerWith env replay).runRecords rs found st).2.2
  | [], _, a, st, ha, _ => by simpa using ⟨Applies.refl st, ha⟩
  | r :: rs, found, a, st, ha, hrs => by
      rw [runRecords_cons hacc replay, a.take_cons]
      have hr := hrs r (List.mem_cons_self _ _)
      obtain ⟨h1, h2⟩ := dispatch_take hacc replay hr.1 hr.2 ha
      obtain ⟨h3, h4⟩ := runRecords_take rs _ h2 fun r' h => hrs r' (List.mem_cons_of_mem _ h)
      exact ⟨h1.trans h3, h4⟩

/-- **A replay at a commit**, at any depth: the counted records of the rebuilt batch join the
open section or are applied, and the replay returns OK exactly when their count fits the
header's `int`. -/
theorem iterate_rebuiltBatch (depth : Nat) (l : List Record) (S : InserterState)
    (hl : ∀ r ∈ l, r.Small) (ha : a.Abstracts S) :
    Applies env S (a.take (l.filter Record.IsCounted)).1
        ((rebuiltBatch l).iterate (memTableInserter env depth) S).2 ∧
      (a.take (l.filter Record.IsCounted)).2.Abstracts
        ((rebuiltBatch l).iterate (memTableInserter env depth) S).2 ∧
      (((rebuiltBatch l).iterate (memTableInserter env depth) S).1 = .ok ↔
        countCounted l < 2 ^ 31) := by
  obtain ⟨replay, hi⟩ := memTableInserter_eq env depth
  have hb := rebuiltBatch_holds l
  have hp : Parses ((rebuiltBatch l).rep.drop kHeader) (l.filter Record.IsCounted) := by
    rw [show _ = encodeRecords _ from hb.reads]
    exact parses_encodeRecords fun r hr => hl r (List.mem_of_mem_filter hr)
  have hcc : countCounted (l.filter Record.IsCounted) = countCounted l := by
    simp [countCounted, List.filter_filter]
  obtain ⟨happ, habs⟩ := runRecords_take hacc replay (l.filter Record.IsCounted) 0 ha
    fun r hr => ⟨Record.isMarker_of_isCounted (List.of_mem_filter hr),
      hl r (List.mem_of_mem_filter hr)⟩
  have hn := Handler.runRecords_found _ (fun _ => rfl) (l.filter Record.IsCounted) 0 S
    (runRecords_ok hacc replay _ 0 S)
  rw [hi, WriteBatch.iterate_eq_runRecords _ _ _ hb.rep_eq hp]
  rcases hr : (handlerWith env replay).runRecords (l.filter Record.IsCounted) 0 S with ⟨s, n, R⟩
  obtain rfl : s = .ok := by rw [← runRecords_ok hacc replay _ 0 S, hr]
  rw [hr] at happ habs hn
  dsimp only at happ habs hn ⊢
  rw [hn, hcc, zero_add]
  split
  · rename_i hne
    refine ⟨happ, habs, iff_of_false (by simp) fun hlt => hne ?_⟩
    rw [toInt32_toUInt32 hlt]
  · rename_i heq
    exact ⟨happ, habs, iff_of_true rfl (eq_toUInt32_of_toInt32_eq (not_not.mp heq).symm).2⟩

end Accepting

/-! ## The markers in recovery -/

section Markers

variable {env : Env} (hL : env.recoveringLogNumber ≠ 0) {a : Recovering} {st : InserterState}
include hL

theorem markBeginPrepare_refines (h2pc : env.allow2pc = true) (ha : a.Abstracts st) :
    Applies env st [] (markBeginPrepare env st).2 ∧
      { a with rebuilding := some [] }.Abstracts (markBeginPrepare env st).2 := by
  unfold markBeginPrepare
  dsimp only
  rw [if_pos hL, if_pos h2pc]
  exact ⟨.keep rfl rfl, rfl, ha.table, fun l hl r hr => (by cases hl; cases hr), ha.small_table⟩

theorem markEndPrepare_refines (x : Bytes) (ha : a.Abstracts st) :
    Applies env st [] (markEndPrepare env x st).2 ∧
      (⟨fun n => if n = x then some a.rebuilding else a.table n, none⟩ : Recovering).Abstracts
        (markEndPrepare env x st).2 := by
  unfold markEndPrepare
  dsimp only
  rw [if_pos hL]
  refine ⟨.keep rfl rfl, rfl, fun n => ?_, fun l hl => (by cases hl), fun n l hn => ?_⟩
  · by_cases hx : n = x
    · simp [insertRecoveredTransaction, hx, ha.rebuilding]
    · simpa [insertRecoveredTransaction, hx] using ha.table n
  · by_cases hx : n = x
    · simp only [hx, if_true, Option.some.injEq] at hn
      exact ha.small_rebuilding l hn
    · exact ha.small_table n l (by simpa [hx] using hn)

theorem markRollback_refines (x : Bytes) (ha : a.Abstracts st) :
    Applies env st [] (markRollback env x st).2 ∧ (a.erase x).Abstracts (markRollback env x st).2 := by
  unfold markRollback
  dsimp only
  split
  · exact ⟨.keep rfl rfl, ha.erase x rfl rfl⟩
  · rename_i h
    have hx : st.recovered x = none := by simpa [hL] using h
    exact ⟨.keep rfl rfl, ha.erase x rfl (deleteRecoveredTransaction_of_none hx).symm⟩

/-- A commit in recovery, for a `replay` that behaves as `iterate_rebuiltBatch` says. -/
theorem markCommit_refines (allow2pc : Bool)
    (replay : WriteBatch → InserterState → Status × InserterState)
    (hreplay : ∀ l S (a' : Recovering), (∀ r ∈ l, r.Small) → a'.Abstracts S →
      Applies env S (a'.take (l.filter Record.IsCounted)).1 (replay (rebuiltBatch l) S).2 ∧
        (a'.take (l.filter Record.IsCounted)).2.Abstracts (replay (rebuiltBatch l) S).2 ∧
        ((replay (rebuiltBatch l) S).1 = .ok ↔ countCounted l < 2 ^ 31))
    (x : Bytes) (ha : a.Abstracts st) {out : List Record} {a' : Recovering}
    (hstep : a.step allow2pc (.commit x) = some (out, a')) :
    Applies env st out (markCommit env replay x st).2 ∧ a'.Abstracts (markCommit env replay x st).2 := by
  have hx := ha.table x
  unfold markCommit
  dsimp only
  rw [if_pos hL, check_recovered]
  rcases hax : a.table x with _ | _ | l <;> simp only [Recovering.step, hax] at hstep
  · have hnone : st.recovered x = none := by simpa [hax] using hx
    cases hstep
    simp only [hnone]
    exact ⟨.keep rfl rfl, ha.congr rfl rfl⟩
  · cases hstep
  · obtain ⟨t, ht, htb⟩ := Option.map_eq_some'.mp (hx.trans (by rw [hax]; rfl))
    obtain ⟨rfl, rfl⟩ := Prod.ext_iff.mp (Option.some.inj hstep).symm
    simp only [ht, show t.batch = some (rebuiltBatch l) from htb]
    obtain ⟨happ, habs, hstat⟩ := hreplay l _ a (ha.small_table x l hax)
      (@Recovering.Abstracts.congr a st { (st.check env.hasDb "db_").check
        ((st.check env.hasDb "db_").logNumberRef == 0) "log_number_ref_ == 0" with
          logNumberRef := t.logNumber } ha rfl rfl)
    by_cases hc : countCounted l < 2 ^ 31
    · rw [if_pos hc, if_pos (hstat.mpr hc)]
      exact ⟨happ.congr rfl rfl rfl rfl, habs.erase x rfl rfl⟩
    · rw [if_neg hc, if_neg (mt hstat.mp hc)]
      exact ⟨happ.congr rfl rfl rfl rfl, habs.congr rfl rfl⟩

end Markers

/-! ## Runs -/

section Runs

variable {env : Env} (hL : env.recoveringLogNumber ≠ 0) (hacc : env.Accepting)
  (replay : WriteBatch → InserterState → Status × InserterState)
  (hreplay : ∀ l S (a' : Recovering), (∀ r ∈ l, r.Small) → a'.Abstracts S →
    Applies env S (a'.take (l.filter Record.IsCounted)).1 (replay (rebuiltBatch l) S).2 ∧
      (a'.take (l.filter Record.IsCounted)).2.Abstracts (replay (rebuiltBatch l) S).2 ∧
      ((replay (rebuiltBatch l) S).1 = .ok ↔ countCounted l < 2 ^ 31))
include hL hacc hreplay

/-- **One record of recovery** makes the calls of the records the abstract step applies and
keeps the inserter's batches those rebuilt from the abstract state. -/
theorem dispatch_refines {r : Record} (hs : r.Small) {a a' : Recovering} {out : List Record}
    {st : InserterState} (ha : a.Abstracts st) (hstep : a.step env.allow2pc r = some (out, a')) :
    Applies env st out ((handlerWith env replay).dispatch r st).2.2 ∧
      a'.Abstracts ((handlerWith env replay).dispatch r st).2.2 := by
  cases r with
  | beginPrepare =>
      have h2pc : env.allow2pc = true := by
        by_contra h
        simp [Recovering.step, h] at hstep
      simp only [Recovering.step, h2pc, if_true, Option.some.injEq, Prod.mk.injEq] at hstep
      obtain ⟨rfl, rfl⟩ := hstep
      exact markBeginPrepare_refines hL h2pc ha
  | endPrepare x =>
      cases hstep
      exact markEndPrepare_refines hL x ha
  | commit x => exact markCommit_refines hL _ replay hreplay x ha hstep
  | rollback x =>
      cases hstep
      exact markRollback_refines hL x ha
  | _ =>
      obtain ⟨rfl, rfl⟩ := Prod.ext_iff.mp (Option.some.inj hstep).symm
      exact dispatch_take hacc replay rfl hs ha

theorem runRecords_refines : ∀ (rs : List Record) (found : Nat) {a a' : Recovering}
    {out : List Record} {st : InserterState}, a.Abstracts st → (∀ r ∈ rs, r.Small) →
    a.run env.allow2pc rs = some (out, a') →
    Applies env st out ((handlerWith env replay).runRecords rs found st).2.2 ∧
      a'.Abstracts ((handlerWith env replay).runRecords rs found st).2.2
  | [], _, _, _, _, st, ha, _, hrun => by
      cases hrun
      exact ⟨.refl st, ha⟩
  | r :: rs, found, a, a', out, st, ha, hs, hrun => by
      obtain ⟨⟨o₁, a₁⟩, h₁, hrest⟩ := Option.bind_eq_some.mp hrun
      obtain ⟨⟨o₂, a₂⟩, h₂, he⟩ := Option.map_eq_some'.mp hrest
      cases he
      rw [runRecords_cons hacc replay]
      obtain ⟨h1, h2⟩ :=
        dispatch_refines hL hacc replay hreplay (hs r (List.mem_cons_self _ _)) ha h₁
      obtain ⟨h3, h4⟩ :=
        runRecords_refines rs _ h2 (fun r' h => hs r' (List.mem_cons_of_mem _ h)) h₂
      exact ⟨h1.trans h3, h4⟩

end Runs

theorem accepting_plain : { Env.plain 1 with ignoreMissingColumnFamilies := true }.Accepting := by
  refine ⟨rfl, fun cfId cf h _ => ?_⟩
  by_cases h0 : cfId = 0 <;> simp [Env.plain, h0] at h
  rw [← h]
  rfl

/-- The abstract state after recovering `preparedPut`: its section, the `Put` and the blob,
filed under `[9]`. -/
def preparedRecovering : Recovering :=
  ⟨fun n => if n = [9] then some (some [.put 0 [1] [2], .logData [3]]) else none, none⟩

theorem readRecords_preparedPut :
    (readRecords (preparedPut.rep.drop kHeader)).1 =
      [.beginPrepare, .put 0 [1] [2], .logData [3], .endPrepare [9]] := by
  have hp : Parses (preparedPut.rep.drop kHeader)
      [.beginPrepare, .put 0 [1] [2], .logData [3], .endPrepare [9]] := by
    rw [show _ = encodeRecords _ from holdsOver_preparedPut.reads]
    exact parses_encodeRecords (by decide)
  rw [parses_iff_readRecords.mp hp]

end RocksBatch
