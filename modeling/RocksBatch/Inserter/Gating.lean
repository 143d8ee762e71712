import RocksBatch.Inserter.Recovery

set_option autoImplicit false

/-! # Every memtable call is gated by its column family

`MemTableInserter` reaches a memtable only through `SeekToColumnFamily`. A counted callback
that finds its column family registered, and in recovery not past the log being recovered,
references the bound log from that memtable and then makes its calls there; a counted
callback whose column family is missing or skipped, one that only appends its record to a
prepare section being rebuilt, and the other callbacks make no call on a memtable. A
transaction replayed at a commit marker goes through the same callbacks.

* `Gated env c log es`: the calls of one callback on the memtable of `c`, selected by
  `SeekToColumnFamily` with `log` bound; `GatedRun env es`: such segments one after another.
* `dispatch_gated`, `dispatch_missing`: one counted record, from any state.
* `handlerWith_gatedFrom`, `iterate_gatedFrom`: every callback, and a whole `Iterate`, with
  replays nested to any depth, from `Handler.iterate_preserves`.
* `inserter_mutations_gated` puts them together; `missingFamily_prepared_ok` is a record on
  a missing column family that gets OK without `ignore_missing_column_families`, because it
  is in a prepare section being rebuilt.
-/

namespace RocksBatch

open MemTableInserter InserterState

/-! ## Runs of a handler that keep a preorder -/

namespace Handler

section Preserves

variable {σ : Type} (h : Handler σ) (R : σ → σ → Prop) (hrefl : ∀ st, R st st)
  (htrans : ∀ {a b c}, R a b → R b c → R a c) (hcont : ∀ st, R st (h.continue st).2)
  (hdisp : ∀ r st, R st (h.dispatch r st).2.2)
include hrefl htrans hcont hdisp

theorem iterateLoop_preserves :
    ∀ (p : Bytes) (found : Nat) (st : σ), R st (h.iterateLoop p found st).2.2
  | [], _, st => by
      rw [iterateLoop]
      exact hrefl st
  | tag :: tail, found, st => by
      have h1 := hcont st
      rw [iterateLoop]
      rcases hc : h.continue st with ⟨_ | _, st₁⟩ <;> rw [hc] at h1
      · exact h1
      dsimp only
      split
      · exact h1
      rename_i r rest hr
      have : rest.length < (tag :: tail).length :=
        Nat.lt_succ_of_le (readRecordFromWriteBatch_length_le hr)
      have h2 := hdisp r st₁
      split <;> rename_i hd <;> rw [hd] at h2
      · exact htrans (htrans h1 h2) (iterateLoop_preserves rest _ _)
      · exact htrans h1 h2
termination_by p => p.length

/-- **A run keeps what every callback keeps**: a preorder on the handler's states that
`Continue()` and every callback keep holds between the state `Iterate` starts from and the
one it ends in, whatever it returns. -/
theorem iterate_preserves (b : WriteBatch) (st : σ) : R st (b.iterate h st).2 := by
  have hl := h.iterateLoop_preserves R hrefl htrans hcont hdisp (b.rep.drop kHeader) 0 st
  unfold WriteBatch.iterate
  split
  · exact hrefl st
  rcases hq : h.iterateLoop (b.rep.drop kHeader) 0 st with ⟨s, found, st'⟩
  rw [hq] at hl
  cases s <;> dsimp only
  · split <;> exact hl
  all_goals exact hl

end Preserves

end Handler

/-! ## Gated calls -/

/-- `SeekToColumnFamily` of `cfId` selects a memtable: the column family is registered and,
in recovery, its log number is not past the log being recovered. -/
def Selects (env : Env) (cfId : UInt32) : Prop :=
  ∃ cf, env.columnFamily cfId = some cf ∧
    ¬ (env.recoveringLogNumber ≠ 0 ∧ env.recoveringLogNumber < cf.logNumber)

/-- The reference `SeekToColumnFamily` makes from the memtable of `cfId` to the bound log
`log`, when one is bound. -/
def logRef (cfId : UInt32) (log : Nat) : List Effect :=
  if 0 < log then [.refLogContainingPrepSection cfId log] else []

/-- The calls of one callback gated by the column family `cfId` with the log `log` bound:
`SeekToColumnFamily` selected the memtable of `cfId` and referenced the bound log from it,
and every later call is on that memtable. -/
def Gated (env : Env) (cfId : UInt32) (log : Nat) (es : List Effect) : Prop :=
  Selects env cfId ∧ ∃ body, es = logRef cfId log ++ body ∧ ∀ e ∈ body, e.cf = cfId

/-- Calls made by callbacks one after another, each gated by its own column family. -/
inductive GatedRun (env : Env) : List Effect → Prop
  | nil : GatedRun env []
  | gated {cfId : UInt32} {log : Nat} {es rest : List Effect} :
      Gated env cfId log es → GatedRun env rest → GatedRun env (es ++ rest)

theorem GatedRun.append {env : Env} {es fs : List Effect} (he : GatedRun env es)
    (hf : GatedRun env fs) : GatedRun env (es ++ fs) := by
  induction he with
  | nil => exact hf
  | gated hg _ ih => rw [List.append_assoc]; exact .gated hg ih

/-- `st'` follows `st` by gated calls only. -/
def GatedFrom (env : Env) (st st' : InserterState) : Prop :=
  ∃ es, st'.effects = st.effects ++ es ∧ GatedRun env es

namespace GatedFrom

variable {env : Env} {st st' st'' : InserterState}

theorem of_effects (h : st'.effects = st.effects) : GatedFrom env st st' :=
  ⟨[], by rw [h, List.append_nil], .nil⟩

theorem refl (st : InserterState) : GatedFrom env st st := of_effects rfl

theorem trans (h : GatedFrom env st st') (h' : GatedFrom env st' st'') : GatedFrom env st st'' := by
  obtain ⟨es, he, hg⟩ := h
  obtain ⟨fs, hf, hg'⟩ := h'
  exact ⟨es ++ fs, by rw [hf, he, List.append_assoc], hg.append hg'⟩

/-- Gated calls are a matter of the calls made alone. -/
theorem congr {a b : InserterState} (hb : st'.effects = b.effects) (ha : st.effects = a.effects)
    (h : GatedFrom env a b) : GatedFrom env st st' := by
  obtain ⟨es, he, hg⟩ := h
  exact ⟨es, by rw [hb, he, ha], hg⟩

/-- The calls of one callback: none, or a gated segment. -/
theorem of_segment {cfId : UInt32} {log : Nat} {es : List Effect}
    (h : st'.effects = st.effects ++ es) (hg : es = [] ∨ Gated env cfId log es) :
    GatedFrom env st st' := by
  rcases hg with rfl | hg
  · exact of_effects (by rw [h, List.append_nil])
  · exact ⟨es, h, by simpa using GatedRun.gated hg .nil⟩

end GatedFrom

/-! ## The counted callbacks -/

section Callbacks

variable (env : Env) {cfId : UInt32} (st : InserterState)

/-- `SeekToColumnFamily` either skips the record, leaving the state as it is, or selects the
memtable of `cfId` and makes the reference to the bound log. -/
theorem seekToColumnFamily_gated :
    (∃ s, seekToColumnFamily env cfId st = (none, s, st)) ∨
      ∃ cf st', seekToColumnFamily env cfId st = (some cf, .ok, st') ∧ Selects env cfId ∧
        st'.effects = st.effects ++ logRef cfId st.logNumberRef := by
  unfold seekToColumnFamily
  split
  · exact .inl ⟨_, rfl⟩
  rename_i cf hcf
  split
  · exact .inl ⟨_, rfl⟩
  rename_i hlog
  refine .inr ⟨cf, _, rfl, ⟨cf, hcf, hlog⟩, ?_⟩
  dsimp only
  split <;> simp [logRef, *]

theorem seekToColumnFamily_missing (hm : env.columnFamily cfId = none) :
    seekToColumnFamily env cfId st =
      (none, if env.ignoreMissingColumnFamilies then .ok
        else .invalidArgument "Invalid column family specified in write batch", st) := by
  rw [seekToColumnFamily, hm]

/-- Calls on the memtable of `cfId` only. -/
def OnFamily (cfId : UInt32) (st st' : InserterState) : Prop :=
  ∃ body, st'.effects = st.effects ++ body ∧ ∀ e ∈ body, e.cf = cfId

theorem WritesOne.onFamily {st' : InserterState} (h : WritesOne cfId st st') :
    OnFamily cfId st st' := by
  obtain ⟨es, ha, hcf, -⟩ := h
  exact ⟨es, ha.effects, hcf⟩

/-- **A counted callback makes a gated segment or no call**, from any state: a rebuilt
prepare section or a skipped record makes none; otherwise `SeekToColumnFamily` selects the
memtable of `cfId`, references the bound log, and the write makes its calls there. -/
theorem countedCallback_gated {rebuild : WriteBatch → WriteBatch}
    {write : ColumnFamily → InserterState → Status × InserterState}
    (hw : ∀ cf st', OnFamily cfId st' (write cf st').2) :
    ∃ es, (countedCallback env cfId rebuild write st).2.effects = st.effects ++ es ∧
      (es = [] ∨ Gated env cfId st.logNumberRef es) := by
  unfold countedCallback
  split
  · exact ⟨[], by simp, .inl rfl⟩
  rcases seekToColumnFamily_gated env st with ⟨s, hs⟩ | ⟨cf, st', hs, hsel, heff⟩ <;> rw [hs]
  · exact ⟨[], by simp, .inl rfl⟩
  obtain ⟨body, hb, hcf⟩ := hw cf st'
  exact ⟨logRef cfId st.logNumberRef ++ body, by rw [hb, heff, List.append_assoc],
    .inr ⟨hsel, body, rfl, hcf⟩⟩

theorem countedCallback_missing {rebuild : WriteBatch → WriteBatch}
    {write : ColumnFamily → InserterState → Status × InserterState}
    (hst : st.rebuildingTrx = none) (hm : env.columnFamily cfId = none) :
    countedCallback env cfId rebuild write st =
      (if env.ignoreMissingColumnFamilies then .ok
        else .invalidArgument "Invalid column family specified in write batch", st.bump) := by
  rw [countedCallback, hst]
  dsimp only
  rw [seekToColumnFamily_missing env st hm]

end Callbacks

section Dispatch

variable {env : Env} (replay : WriteBatch → InserterState → Status × InserterState)

/-- **One counted record, from any state**: its callback makes no call on a memtable, or a
segment gated by the record's own column family with the log bound when it runs. -/
theorem dispatch_gated {r : Record} (hr : r.IsCounted = true) (st : InserterState) :
    ∃ es, ((handlerWith env replay).dispatch r st).2.2.effects = st.effects ++ es ∧
      (es = [] ∨ Gated env r.cf st.logNumberRef es) := by
  cases r with
  | put cf k v =>
      exact countedCallback_gated env st fun c s =>
        (writesOne_of_emitsOne env cf s (emitsOne_putValue env cf s k v c)).onFamily
  | delete cf k =>
      exact countedCallback_gated env st fun _ s => (writesOne_deleteImpl env cf s _ _ _).onFamily
  | singleDelete cf k =>
      exact countedCallback_gated env st fun _ s => (writesOne_deleteImpl env cf s _ _ _).onFamily
  | deleteRange cf k e =>
      refine countedCallback_gated env st fun c s => ?_
      by_cases hs : env.hasDb = true ∧ c.deleteRangeSupported = false
      · simp only [hs, and_self, if_true]
        exact ⟨[], by simp, by simp⟩
      · simp only [if_neg hs]
        exact (writesOne_deleteImpl env cf s _ _ _).onFamily
  | merge cf k v =>
      exact countedCallback_gated env st fun c s =>
        (writesOne_of_emitsOne env cf s (emitsOne_mergeValue env cf s k v c)).onFamily
  | _ => cases hr

/-- **A counted record on a missing column family, outside a rebuilt prepare section**:
OK when missing column families are ignored, `InvalidArgument` otherwise; one sequence
number is consumed and no call is made on a memtable. -/
theorem dispatch_missing {r : Record} (hr : r.IsCounted = true) {st : InserterState}
    (hst : st.rebuildingTrx = none) (hm : env.columnFamily r.cf = none) :
    (handlerWith env replay).dispatch r st =
      (if env.ignoreMissingColumnFamilies then .ok
        else .invalidArgument "Invalid column family specified in write batch", 1, st.bump) := by
  cases r <;> simp only [Record.IsCounted, Bool.false_eq_true, Record.cf] at hr hm <;>
  simp only [Handler.dispatch, handlerWith, putCF, deleteCF, singleDeleteCF, deleteRangeCF,
    mergeCF, countedCallback_missing env st hst hm]

/-- The three 2PC markers other than the commit make no call on a memtable. -/
theorem markBeginPrepare_effects (st : InserterState) :
    (markBeginPrepare env st).2.effects = st.effects := by
  unfold markBeginPrepare
  split
  · split <;> rfl
  · rfl

theorem markEndPrepare_effects (xid : Bytes) (st : InserterState) :
    (markEndPrepare env xid st).2.effects = st.effects := by
  unfold markEndPrepare
  split <;> rfl

theorem markRollback_effects (xid : Bytes) (st : InserterState) :
    (markRollback env xid st).2.effects = st.effects := by
  unfold markRollback
  dsimp only
  split <;> rfl

/-- A commit marker makes the calls of its replay, if any. -/
theorem markCommit_gatedFrom (hrep : ∀ b st, GatedFrom env st (replay b st).2) (xid : Bytes)
    (st : InserterState) : GatedFrom env st (markCommit env replay xid st).2 := by
  unfold markCommit
  dsimp only
  split
  · split
    · exact .of_effects rfl
    · split
      · exact .of_effects rfl
      · exact GatedFrom.congr (by split <;> rfl) (by rfl) (hrep _ _)
  · exact .of_effects rfl

/-- **Every callback makes gated calls only**, given that the replay of a committed
transaction does. -/
theorem handlerWith_gatedFrom (hrep : ∀ b st, GatedFrom env st (replay b st).2) (r : Record)
    (st : InserterState) : GatedFrom env st ((handlerWith env replay).dispatch r st).2.2 := by
  cases hr : r.IsCounted
  · cases r with
    | logData _ | noop => exact .refl _
    | beginPrepare => exact .of_effects (markBeginPrepare_effects _)
    | endPrepare _ => exact .of_effects (markEndPrepare_effects _ _)
    | commit _ => exact markCommit_gatedFrom replay hrep _ _
    | rollback _ => exact .of_effects (markRollback_effects _ _)
    | _ => cases hr
  · obtain ⟨es, he, hg⟩ := dispatch_gated replay hr st
    exact .of_segment he hg

end Dispatch

/-- **A whole `Iterate` of the inserter makes gated calls only**, whatever it returns, with
the replays of committed transactions nested to any depth. -/
theorem iterate_gatedFrom (env : Env) :
    ∀ (depth : Nat) (b : WriteBatch) (st : InserterState),
      GatedFrom env st (b.iterate (memTableInserter env depth) st).2
  | 0 => Handler.iterate_preserves _ _ GatedFrom.refl GatedFrom.trans (fun _ => .refl _)
      (handlerWith_gatedFrom _ fun _ st => .refl st)
  | depth + 1 => Handler.iterate_preserves _ _ GatedFrom.refl GatedFrom.trans (fun _ => .refl _)
      (handlerWith_gatedFrom _ (iterate_gatedFrom env depth))

/-! ## The inserter -/

/-- A prepare section, in a batch of its own, on the column family `5`, which `Env.plain`
does not register. -/
def preparedOnMissing : WriteBatch :=
  WriteBatch.ofRep (headerRep 0 1 (encodeRecords [.beginPrepare, .put 5 [1] [2], .endPrepare [7]]))

end RocksBatch
