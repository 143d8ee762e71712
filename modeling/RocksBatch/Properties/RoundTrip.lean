import RocksBatch.Batch.Invariant

set_option autoImplicit false

/-! # Building a batch and reading it back

A batch built from a fresh batch by appends, read back by `Iterate` with a handler that
records its calls, makes one call per append, in the order of the appends and with their
arguments (`iterate_build`). The leading `Noop` of a prepared batch makes the begin-prepare
call once `MarkEndPrepare` has rewritten it, and no call before.

The calls expected are written from the appends alone (`expectedCalls`); the proof goes
through the records the batch holds (`buildRecords`), which the invariant of
`Batch.Invariant` follows call by call.

A handler whose marker callback fails is not stopped by it: `Iterate` drops the statuses of
the four 2PC marker callbacks (`WriteBatch.iterate_markersOk`). On a batch built by
`MarkCommit` and a `Put`, a handler whose `MarkCommit` fails still gets the `Put`, and
`Iterate` returns OK (`iterate_continues_after_failed_markCommit`).
-/

namespace RocksBatch

/-! ## A recording handler -/

/-- A callback of `WriteBatch::Handler` with its arguments. -/
inductive Call
  | putCF (cf : UInt32) (key value : Bytes)
  | deleteCF (cf : UInt32) (key : Bytes)
  | singleDeleteCF (cf : UInt32) (key : Bytes)
  | deleteRangeCF (cf : UInt32) (begin_key end_key : Bytes)
  | mergeCF (cf : UInt32) (key value : Bytes)
  | logData (blob : Bytes)
  | markBeginPrepare
  | markEndPrepare (xid : Bytes)
  | markCommit (xid : Bytes)
  | markRollback (xid : Bytes)
  deriving DecidableEq, Repr

/-- A handler that accepts every call and records it. -/
def recorder : Handler (List Call) where
  putCF cf k v calls := (.ok, calls ++ [.putCF cf k v])
  deleteCF cf k calls := (.ok, calls ++ [.deleteCF cf k])
  singleDeleteCF cf k calls := (.ok, calls ++ [.singleDeleteCF cf k])
  deleteRangeCF cf k e calls := (.ok, calls ++ [.deleteRangeCF cf k e])
  mergeCF cf k v calls := (.ok, calls ++ [.mergeCF cf k v])
  logData blob calls := calls ++ [.logData blob]
  markBeginPrepare calls := (.ok, calls ++ [.markBeginPrepare])
  markEndPrepare xid calls := (.ok, calls ++ [.markEndPrepare xid])
  markCommit xid calls := (.ok, calls ++ [.markCommit xid])
  markRollback xid calls := (.ok, calls ++ [.markRollback xid])
  «continue» calls := (true, calls)

/-- The call a record makes in `Iterate`; a `Noop` makes none. -/
def Record.call : Record → Option Call
  | .put cf k v => some (.putCF cf k v)
  | .delete cf k => some (.deleteCF cf k)
  | .singleDelete cf k => some (.singleDeleteCF cf k)
  | .deleteRange cf k e => some (.deleteRangeCF cf k e)
  | .merge cf k v => some (.mergeCF cf k v)
  | .logData blob => some (.logData blob)
  | .noop => none
  | .beginPrepare => some .markBeginPrepare
  | .endPrepare xid => some (.markEndPrepare xid)
  | .commit xid => some (.markCommit xid)
  | .rollback xid => some (.markRollback xid)

theorem recorder_dispatch (r : Record) (calls : List Call) :
    recorder.dispatch r calls = (.ok, if r.IsCounted then 1 else 0, calls ++ r.call.toList) := by
  cases r <;> simp [Handler.dispatch, recorder, Record.call, Record.IsCounted]

theorem recorder_runRecords (rs : List Record) (found : Nat) (calls : List Call) :
    recorder.runRecords rs found calls =
      (.ok, found + countCounted rs, calls ++ rs.filterMap Record.call) := by
  induction rs generalizing found calls with
  | nil => simp [Handler.runRecords]
  | cons r rs ih =>
      simp only [Handler.runRecords, recorder_dispatch, ih]
      simp only [recorder, countCounted_cons, List.filterMap_cons]
      cases r.call <;> simp <;> omega

/-- `Iterate` with the recording handler on a batch whose payload reads as `rs`, fewer than
`2^31` of them counted, and whose header counts them: OK, with the calls of the records. -/
theorem iterate_recorder {b : WriteBatch} {seq : UInt64} {p : Bytes} {rs : List Record}
    (hrep : b.rep = headerRep seq (countCounted rs).toUInt32 p) (hp : Parses p rs)
    (hc : countCounted rs < 2 ^ 31) : b.iterate recorder [] = (.ok, rs.filterMap Record.call) := by
  rw [WriteBatch.iterate_eq_runRecords _ _ _ hrep hp, recorder_runRecords, toInt32_toUInt32 hc]
  simp

/-! ## The appends and the calls they should make -/

/-- The calls that build a batch by appending: the counted appends, `PutLogData`,
`InsertNoop` and the three 2PC markers. -/
def Op.Builds : Op → Prop
  | .append _ | .insertNoop | .markEndPrepare _ | .markCommit _ | .markRollback _ => True
  | _ => False

/-- Whether the call is `MarkEndPrepare`. -/
def Op.isMarkEndPrepare : Op → Bool
  | .markEndPrepare _ => true
  | _ => false

/-- Whether the call is a counted append. -/
def Op.isCounted : Op → Bool
  | .append a => a.record.IsCounted
  | _ => false

/-- `MarkEndPrepare` is called at most once, and only on a batch whose first append was
`InsertNoop`. -/
def SealsOnce (ops : List Op) : Prop :=
  ops.countP Op.isMarkEndPrepare = 0 ∨
    (ops.head? = some .insertNoop ∧ ops.countP Op.isMarkEndPrepare = 1)

/-- The call an append should make when its batch is iterated: the callback of its kind,
with its column family, its key and value (the parts of a `SliceParts` one after another),
its blob or its xid. -/
def AppendOp.call : AppendOp → Call
  | .put cf k v => .putCF cf k v
  | .putParts cf k v => .putCF cf k.flatten v.flatten
  | .delete cf k => .deleteCF cf k
  | .deleteParts cf k => .deleteCF cf k.flatten
  | .singleDelete cf k => .singleDeleteCF cf k
  | .singleDeleteParts cf k => .singleDeleteCF cf k.flatten
  | .deleteRange cf k e => .deleteRangeCF cf k e
  | .deleteRangeParts cf k e => .deleteRangeCF cf k.flatten e.flatten
  | .merge cf k v => .mergeCF cf k v
  | .mergeParts cf k v => .mergeCF cf k.flatten v.flatten
  | .putLogData blob => .logData blob

/-- The calls of one append; `InsertNoop` makes none of its own. -/
def Op.calls : Op → List Call
  | .append a => [a.call]
  | .markEndPrepare xid => [.markEndPrepare xid]
  | .markCommit xid => [.markCommit xid]
  | .markRollback xid => [.markRollback xid]
  | _ => []

/-- The calls iterating the batch built by `ops` should make: those of every append in
order, after the begin-prepare call that the leading `InsertNoop` makes once `MarkEndPrepare`
has sealed the batch. -/
def expectedCalls (ops : List Op) : List Call :=
  (if ops.any Op.isMarkEndPrepare then [.markBeginPrepare] else []) ++ ops.flatMap Op.calls

/-- The batch after the calls `ops`, in order. -/
def build (b : WriteBatch) : List Op → WriteBatch
  | [] => b
  | op :: ops => build (op.apply b) ops

theorem build_append (b : WriteBatch) (xs ys : List Op) :
    build b (xs ++ ys) = build (build b xs) ys := by
  induction xs generalizing b with
  | nil => rfl
  | cons op xs ih => exact ih _

theorem List.exists_of_countP_eq_one {α : Type} {p : α → Bool} :
    ∀ {l : List α}, l.countP p = 1 →
      ∃ pre x post, l = pre ++ x :: post ∧ p x ∧ pre.countP p = 0 ∧ post.countP p = 0
  | [], h => by simp at h
  | a :: l, h => by
      by_cases ha : p a
      · simp only [List.countP_cons, ha, if_true] at h
        exact ⟨[], a, l, rfl, ha, rfl, by omega⟩
      · simp only [List.countP_cons, ha, if_false] at h
        obtain ⟨pre, x, post, rfl, hx, hpre, hpost⟩ := List.exists_of_countP_eq_one h
        exact ⟨a :: pre, x, post, rfl, hx, by simp [ha, hpre], hpost⟩

/-! ## The records of a built batch -/

/-- The records the batch built by `ops` holds: those of every append in order, the leading
`Noop` turned into the begin marker when `MarkEndPrepare` sealed the batch. -/
def buildRecords (ops : List Op) : List Record :=
  if ops.any Op.isMarkEndPrepare then (ops.flatMap Op.records).set 0 .beginPrepare
  else ops.flatMap Op.records

section Build

open HoldsOver

variable {seq : UInt64} {b : WriteBatch} {rs : List Record}

/-- One append other than `MarkEndPrepare`, on a batch without a byte limit. -/
theorem HoldsOver.buildStep (h : HoldsOver .encoded seq [] [] [] b rs) (hm : b.maxBytes = 0)
    {op : Op} (hop : op.Builds) (hs : op.isMarkEndPrepare = false) :
    HoldsOver .encoded seq [] [] [] (op.apply b) (rs ++ op.records) ∧ (op.apply b).maxBytes = 0 := by
  cases op with
  | append a =>
      rw [Op.apply, AppendOp.apply_eq h.rep_eq, WriteBatch.appendRecord, if_pos (.inl hm)]
      exact ⟨h.pushRecord trivial, hm⟩
  | insertNoop => exact ⟨h.insertNoop, hm⟩
  | markCommit xid => exact ⟨h.markCommit trivial, hm⟩
  | markRollback xid => exact ⟨h.markRollback trivial, hm⟩
  | markEndPrepare xid => simp [Op.isMarkEndPrepare] at hs
  | _ => simp [Op.Builds] at hop

theorem HoldsOver.build (h : HoldsOver .encoded seq [] [] [] b rs) (hm : b.maxBytes = 0)
    {ops : List Op} (hops : ∀ op ∈ ops, op.Builds) (hs : ops.countP Op.isMarkEndPrepare = 0) :
    HoldsOver .encoded seq [] [] [] (build b ops) (rs ++ ops.flatMap Op.records) ∧
      (build b ops).maxBytes = 0 := by
  induction ops generalizing b rs with
  | nil => exact ⟨by rwa [List.flatMap_nil, List.append_nil], hm⟩
  | cons op ops ih =>
      rw [List.countP_cons] at hs
      have hop : op.isMarkEndPrepare = false := by
        cases hx : op.isMarkEndPrepare
        · rfl
        · rw [hx, if_pos rfl] at hs
          omega
      rw [hop, if_neg Bool.false_ne_true, Nat.add_zero] at hs
      obtain ⟨h', hm'⟩ := h.buildStep hm (hops op (List.mem_cons_self _ _)) hop
      rw [List.flatMap_cons, ← List.append_assoc]
      exact ih h' hm' (fun op' h => hops op' (List.mem_cons_of_mem _ h)) hs

/-- A batch whose records start with a `Noop` has its tag at offset 12: `MarkEndPrepare` may
seal it. -/
theorem HoldsOver.markEndPrepare_enabled {X : List Record}
    (h : HoldsOver .encoded seq [] [] [] b (.noop :: X)) (xid : Bytes) :
    (Op.markEndPrepare xid).Enabled b := by
  rw [Op.Enabled, h.rep_eq, WriteBatch.getElem?_kHeader_headerRep,
    show b.rep.drop kHeader = _ from h.reads]
  simp [Record.encode, Record.tag]

/-- `MarkEndPrepare` on a built batch that starts with its `Noop`. -/
theorem HoldsOver.buildSeal {X : List Record} (h : HoldsOver .encoded seq [] [] [] b (.noop :: X))
    (xid : Bytes) :
    HoldsOver .encoded seq [] [] [] (Op.markEndPrepare xid |>.apply b)
      (.beginPrepare :: (X ++ [.endPrepare xid])) := by
  obtain ⟨X', hX, h'⟩ := h.markEndPrepare (h.markEndPrepare_enabled xid) trivial
  cases hX
  exact h'

theorem holdsOver_build {ops : List Op} (hops : ∀ op ∈ ops, op.Builds) (hseal : SealsOnce ops) :
    HoldsOver .encoded 0 [] [] [] (build (WriteBatch.new 0) ops) (buildRecords ops) := by
  have h0 := HoldsOver.new .encoded 0
  rcases hseal with hs | ⟨hhead, hs⟩
  · rw [buildRecords, List.any_eq_false.mpr (List.countP_eq_zero.mp hs)]
    exact (h0.build rfl hops hs).1
  · obtain ⟨rest, rfl⟩ := List.head?_eq_some_iff.mp hhead
    simp only [List.countP_cons, Op.isMarkEndPrepare] at hs
    obtain ⟨pre, x, post, rfl, hx, hpre, hpost⟩ := List.exists_of_countP_eq_one (by simpa using hs)
    obtain ⟨xid, rfl⟩ : ∃ xid, x = .markEndPrepare xid := by
      cases x <;> simp [Op.isMarkEndPrepare] at hx ⊢
    have hmem : ∀ op ∈ Op.insertNoop :: pre, op.Builds := fun op h =>
      hops op (by simp only [List.mem_cons, List.mem_append] at h ⊢; tauto)
    obtain ⟨h1, hm1⟩ := h0.build rfl hmem (by simpa [Op.isMarkEndPrepare] using hpre)
    have h2 := HoldsOver.buildSeal (by simpa [Op.records] using h1) xid
    obtain ⟨h3, -⟩ := h2.build hm1 (fun op h => hops op (by simp [h])) hpost
    have hb : build (WriteBatch.new 0) (.insertNoop :: (pre ++ .markEndPrepare xid :: post)) =
        build ((Op.markEndPrepare xid).apply (build (WriteBatch.new 0) (.insertNoop :: pre))) post := by
      rw [← List.cons_append, build_append]
      rfl
    rw [hb]
    simpa [buildRecords, Op.records, Op.isMarkEndPrepare] using h3

end Build

/-! ## Reading it back -/

theorem SealsOnce.eq_insertNoop {ops : List Op} (h : SealsOnce ops)
    (hany : ops.any Op.isMarkEndPrepare = true) : ∃ rest, ops = .insertNoop :: rest := by
  rcases h with h | ⟨hhead, -⟩
  · simp [List.countP_eq_zero] at h
    obtain ⟨op, hop, hop'⟩ := List.any_eq_true.mp hany
    simp [h op hop] at hop'
  · exact List.head?_eq_some_iff.mp hhead

theorem Op.records_filterMap_call (op : Op) : op.records.filterMap Record.call = op.calls := by
  cases op with
  | append a => cases a <;> rfl
  | _ => rfl

theorem Op.countCounted_records (op : Op) :
    countCounted op.records = if op.isCounted then 1 else 0 := by
  cases op <;> simp [Op.records, Op.isCounted, Record.IsCounted]

theorem countCounted_flatMap_records (ops : List Op) :
    countCounted (ops.flatMap Op.records) = ops.countP Op.isCounted := by
  induction ops with
  | nil => rfl
  | cons op ops ih =>
      rw [List.flatMap_cons, countCounted_append, ih, Op.countCounted_records, List.countP_cons]
      omega

theorem buildRecords_filterMap_call {ops : List Op} (hseal : SealsOnce ops) :
    (buildRecords ops).filterMap Record.call = expectedCalls ops := by
  unfold buildRecords expectedCalls
  split
  · obtain ⟨rest, rfl⟩ := hseal.eq_insertNoop ‹_›
    have hr : (Op.insertNoop :: rest).flatMap Op.records = .noop :: rest.flatMap Op.records := rfl
    have hc : (Op.insertNoop :: rest).flatMap Op.calls = rest.flatMap Op.calls := rfl
    rw [hr, hc, List.set_cons_zero, List.filterMap_cons, List.filterMap_flatMap]
    simp [Record.call, Op.records_filterMap_call, *]
  · simp [List.filterMap_flatMap, Op.records_filterMap_call, *]

theorem countCounted_buildRecords {ops : List Op} (hseal : SealsOnce ops) :
    countCounted (buildRecords ops) = ops.countP Op.isCounted := by
  unfold buildRecords
  split
  · obtain ⟨rest, rfl⟩ := hseal.eq_insertNoop ‹_›
    have := countCounted_flatMap_records (.insertNoop :: rest)
    simpa [Op.records, Record.IsCounted, Op.isCounted] using this
  · exact countCounted_flatMap_records ops

theorem small_buildRecords {ops : List Op} (hs : ∀ op ∈ ops, op.Small) :
    ∀ r ∈ buildRecords ops, r.Small := by
  have hflat : ∀ r ∈ ops.flatMap Op.records, r.Small := by
    simp only [List.mem_flatMap]
    rintro r ⟨op, hop, hr⟩
    exact hs op hop r hr
  unfold buildRecords
  split
  · intro r hr
    rcases List.mem_or_eq_of_mem_set hr with hr | rfl
    · exact hflat r hr
    · simp [Record.Small, Record.fields]
  · exact hflat

/-- **A built batch reads back as it was built**: from a fresh batch without a byte limit,
every sequence of appends (`MarkEndPrepare` at most once, on a batch that starts with its
`Noop`) whose keys, values, blobs and xids are shorter than `2^32` bytes and with fewer than
`2^31` counted appends is accepted by `Iterate`, which makes the calls of the appends in
order, with their arguments. -/
theorem iterate_build (ops : List Op) (hops : ∀ op ∈ ops, op.Builds)
    (hs : ∀ op ∈ ops, op.Small) (hseal : SealsOnce ops) (hc : ops.countP Op.isCounted < 2 ^ 31) :
    (build (WriteBatch.new 0) ops).iterate recorder [] = (.ok, expectedCalls ops) := by
  have h := holdsOver_build hops hseal
  have hp : Parses ((build (WriteBatch.new 0) ops).rep.drop kHeader) (buildRecords ops) := by
    rw [show _ = encodeRecords _ from h.reads]
    exact parses_encodeRecords (small_buildRecords hs)
  rw [iterate_recorder h.rep_eq hp (by rwa [countCounted_buildRecords hseal]),
    buildRecords_filterMap_call hseal]

/-- A prepared batch: its `Noop`, a `Put` on column family `5`, a blob and the seal. -/
def preparedOps : List Op :=
  [.insertNoop, .append (.put 5 [1] [2]), .append (.putLogData [3]), .markEndPrepare [9]]

theorem iterate_build_prepared :
    (∀ op ∈ preparedOps, op.Builds) ∧ (∀ op ∈ preparedOps, op.Small) ∧ SealsOnce preparedOps ∧
      preparedOps.countP Op.isCounted < 2 ^ 31 ∧
      (build (WriteBatch.new 0) preparedOps).iterate recorder [] =
        (.ok, [.markBeginPrepare, .putCF 5 [1] [2], .logData [3], .markEndPrepare [9]]) := by
  have hb : ∀ op ∈ preparedOps, op.Builds := by
    intro op hop
    simp only [preparedOps, List.mem_cons, List.mem_singleton, List.not_mem_nil, or_false] at hop
    rcases hop with rfl | rfl | rfl | rfl <;> trivial
  have hs : ∀ op ∈ preparedOps, op.Small := by decide
  have hseal : SealsOnce preparedOps := .inr ⟨rfl, rfl⟩
  have hc : preparedOps.countP Op.isCounted < 2 ^ 31 := by decide
  exact ⟨hb, hs, hseal, hc, iterate_build preparedOps hb hs hseal hc⟩

/-! ## A marker callback that fails -/

/-- The recording handler with a `MarkCommit` that fails. -/
def commitRefuser : Handler (List Call) :=
  { recorder with
    markCommit := fun xid calls => (.notSupported "commit refused", calls ++ [.markCommit xid]) }

/-- A commit marker followed by a `Put`, appended to a fresh batch. -/
def commitThenPut : List Op := [.markCommit [7], .append (.put 0 [1] [2])]

theorem iterate_continues_after_failed_markCommit :
    (commitRefuser.markCommit [7] []).1 ≠ .ok ∧
      (build (WriteBatch.new 0) commitThenPut).iterate commitRefuser [] =
        (.ok, [.markCommit [7], .putCF 0 [1] [2]]) := by
  refine ⟨by simp [commitRefuser], ?_⟩
  have h := @holdsOver_build commitThenPut (by simp [commitThenPut, Op.Builds]) (.inl rfl)
  have hp : Parses ((build (WriteBatch.new 0) commitThenPut).rep.drop kHeader)
      (buildRecords commitThenPut) := by
    rw [show _ = encodeRecords _ from h.reads]
    exact parses_encodeRecords (by
      simp [buildRecords, commitThenPut, Op.records, AppendOp.record, Op.isMarkEndPrepare,
        Record.Small, Record.fields])
  rw [WriteBatch.iterate_eq_runRecords _ _ _ h.rep_eq hp]
  rfl

end RocksBatch
