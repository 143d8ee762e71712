import RocksBatch.Batch.WellFormed

set_option autoImplicit false

/-! # Save points

`SetSavePoint` pushes the size, the count and the content flags of the batch;
`RollbackToSavePoint` pops the top one and goes back to it, asserting that its size is at
most the size of the batch and its count at most the header count (`RollbackAssertions`).

On every batch built from a fresh one the save points mark prefixes of the payload: each is
the size, the header count and the flags of a prefix of the records, and their sizes grow
from the bottom of the stack to its top. The size assertion always holds, the count
assertion whenever the batch holds fewer than `2^31` counted records. The header count is
read as a signed 32-bit integer, so the count assertion fails on `overflowing`: a save
point set on `2^31 - 1` counted records, then one more `Put`, and the count reads `-2^31`.

A run of calls between a `SetSavePoint` and its `RollbackToSavePoint` (`runSteps`) that
neither clears the stack nor pops below its own save point (`Balanced`) keeps the invariant
over the base that save point marks, so the rollback restores the representation, the
content flags and the stack under it, whatever the run wrote, appended or rolled back in
between (`rollbackToSavePoint_restores`).
-/

namespace RocksBatch

open WriteBatch WriteBatchInternal

/-! ## What the calls do to the stack -/

theorem savePoints_appendRecord (b : WriteBatch) (seq : UInt64) (cnt : UInt32) (p : Bytes)
    (r : Record) : (b.appendRecord seq cnt p r).1.savePoints = b.savePoints := by
  unfold appendRecord
  split <;> rfl

theorem savePoints_hasFlag (b : WriteBatch) (flag : Nat) :
    (b.hasFlag flag).2.savePoints = b.savePoints := by
  unfold hasFlag computeContentFlags
  split <;> rfl

theorem savePoints_append (dst src : WriteBatch) (wal_only : Bool) :
    (append dst src wal_only).1.savePoints = dst.savePoints := by
  unfold append
  split
  rfl

theorem maxBytes_append (dst src : WriteBatch) (wal_only : Bool) :
    (append dst src wal_only).1.maxBytes = dst.maxBytes := by
  unfold append
  split
  rfl

/-! ## The stack of a batch -/

namespace Above

variable {ρ : Reading} {p₀ p : Bytes} {rs₀ rs : List Record} {sps : List SavePoint}

/-- Every save point above the base is taken on a prefix of the payload, reading as a prefix
of the records, with their flags. -/
theorem exists_of_mem (h0 : ρ.Reads p₀ rs₀) (h : Above ρ p₀ rs₀ sps p rs) :
    ∀ sp ∈ sps, ∃ p₁ rs₁ f, p₁ <+: p ∧ rs₁ <+: rs ∧ ρ.Reads p₁ rs₁ ∧ ρ.Flags f rs₁ ∧
      sp = savePointOf p₁ rs₁ f := by
  induction h with
  | base _ => simp
  | push h hf _ ih =>
      intro sp hsp
      rcases List.mem_cons.1 hsp with rfl | hsp
      · exact ⟨_, _, _, List.prefix_append _ _, List.prefix_append _ _, h.reads h0, hf, rfl⟩
      · obtain ⟨p₁, rs₁, f, hp, hr, h₁, hf₁, rfl⟩ := ih sp hsp
        exact ⟨p₁, rs₁, f, hp.trans (List.prefix_append _ _), hr.trans (List.prefix_append _ _),
          h₁, hf₁, rfl⟩

theorem size_le (h0 : ρ.Reads p₀ rs₀) (h : Above ρ p₀ rs₀ sps p rs) :
    ∀ sp ∈ sps, sp.size ≤ kHeader + p.length := by
  intro sp hsp
  obtain ⟨p₁, -, -, hp, -, -, -, rfl⟩ := h.exists_of_mem h0 sp hsp
  simpa [savePointOf] using hp.length_le

/-- The sizes do not decrease from the bottom of the stack to its top. -/
theorem pairwise_size (h0 : ρ.Reads p₀ rs₀) (h : Above ρ p₀ rs₀ sps p rs) :
    sps.Pairwise fun above below => below.size ≤ above.size := by
  induction h with
  | base _ => exact .nil
  | push h _ _ ih => exact List.pairwise_cons.2 ⟨h.size_le h0, ih⟩

end Above

namespace HoldsOver

variable {ρ : Reading} {seq : UInt64} {p₀ : Bytes} {rs₀ : List Record}
  {base : List SavePoint} {b : WriteBatch} {rs : List Record}

theorem flags (h : HoldsOver ρ seq p₀ rs₀ base b rs) : ρ.Flags b.contentFlags rs := by
  obtain ⟨-, -, -, -, -, -, hf⟩ := h
  exact hf

/-- On a batch built from a fresh one every save point is the size, the count and the flags
of a prefix of the records. -/
theorem savePoint_prefix (h : HoldsOver .encoded seq [] [] [] b rs) :
    ∀ sp ∈ b.savePoints, ∃ rs₁, rs₁ <+: rs ∧
      sp = savePointOf (encodeRecords rs₁) rs₁ (classify rs₁) := by
  obtain ⟨h0, p, new, -, hs, ha, -⟩ := h
  intro sp hsp
  rw [hs, List.append_nil] at hsp
  obtain ⟨p₁, rs₁, f, -, hr, rfl, hf, rfl⟩ := ha.exists_of_mem h0 sp hsp
  exact ⟨rs₁, hr, by rw [hf.eq_classify hf.mod_two]⟩

theorem pairwise_size (h : HoldsOver ρ seq [] [] [] b rs) :
    b.savePoints.Pairwise fun above below => below.size ≤ above.size := by
  obtain ⟨h0, p, new, -, hs, ha, -⟩ := h
  rw [hs, List.append_nil]
  exact ha.pairwise_size h0

/-- **The assertions of `RollbackToSavePoint` hold** on a batch of fewer than `2^31`
counted records: the save point it pops marks a prefix, and the counts read as they are. -/
theorem rollbackAssertions (h : HoldsOver ρ seq [] [] [] b rs) (hc : countCounted rs < 2 ^ 31) :
    b.RollbackAssertions := by
  intro sp rest hsp
  obtain ⟨h0, p, new, hrep, hs, ha, -⟩ := h
  obtain ⟨p₁, rs₁, f, hp, ⟨t, rfl⟩, -, -, rfl⟩ :=
    ha.exists_of_mem h0 sp (by rw [← List.append_nil new, ← hs, hsp]; exact List.mem_cons_self _ _)
  rw [countCounted_append] at hc
  refine ⟨?_, ?_⟩
  · rw [hrep, length_headerRep]
    simpa [savePointOf] using hp.length_le
  · have hc₁ : countCounted rs₁ < 2 ^ 31 := by omega
    rw [b.count_headerRep _ _ _ hrep, toInt32_toUInt32 (by rwa [countCounted_append]),
      countCounted_append]
    simp only [savePointOf, toInt32_toUInt32 hc₁]
    omega

/-! ## A run over its save point -/

/-- Setting a save point makes it the base of the run that follows: the payload, its
records and the stack from that save point down. -/
theorem setSavePoint_base (h : HoldsOver ρ seq [] [] [] b rs) :
    HoldsOver ρ seq (b.rep.drop kHeader) rs b.setSavePoint.savePoints b.setSavePoint rs := by
  refine ⟨h.reads, _, [], h.rep_eq, rfl, ?_, h.flags⟩
  simpa using @Above.base ρ (b.rep.drop kHeader) rs [] [] (Reading.reads_nil ρ)

theorem savePoints_setSavePoint (h : HoldsOver ρ seq p₀ rs₀ base b rs) :
    b.setSavePoint.savePoints = savePointOf (b.rep.drop kHeader) rs b.contentFlags :: b.savePoints := by
  have hr := h.rep_eq
  have hl : b.rep.length = kHeader + (b.rep.drop kHeader).length := by
    conv_lhs => rw [hr]
    exact length_headerRep ..
  simp only [WriteBatch.setSavePoint, savePointOf, getDataSize, hl, b.count_headerRep _ _ _ hr]

/-- A counted append on a batch without a size limit always writes its record. -/
theorem appendOp_fits (h : HoldsOver ρ seq p₀ rs₀ base b rs) (a : AppendOp)
    (hr : ρ.Admits a.record) (hm : b.maxBytes = 0) :
    HoldsOver ρ seq p₀ rs₀ base ((Op.append a).apply b) (rs ++ [a.record]) := by
  rw [Op.apply, AppendOp.apply_eq h.rep_eq, WriteBatch.appendRecord, if_pos (.inl hm)]
  exact h.pushRecord hr

end HoldsOver

/-- A call in a run on one batch: one of its own calls, or `Append` of another batch, whole. -/
inductive Step
  | op (op : Op)
  | append (src : WriteBatch)

/-- The batch after the call. -/
def Step.apply : Step → WriteBatch → WriteBatch
  | .op o, b => o.apply b
  | .append src, b => (WriteBatchInternal.append b src false).1

/-- The batch after the calls, in order. -/
def runSteps (b : WriteBatch) : List Step → WriteBatch
  | [] => b
  | s :: X => runSteps (s.apply b) X

/-- A run that calls neither `Clear` nor `MarkEndPrepare`, and whose `RollbackToSavePoint`
and `PopSavePoint` calls pop only save points it set itself: `d` of them are on the stack,
and none is left at the end. -/
def Balanced : Nat → List Step → Prop
  | d, [] => d = 0
  | d, .op .setSavePoint :: X => Balanced (d + 1) X
  | d, .op .rollbackToSavePoint :: X => 0 < d ∧ Balanced (d - 1) X
  | d, .op .popSavePoint :: X => 0 < d ∧ Balanced (d - 1) X
  | _, .op .clear :: _ => False
  | _, .op (.markEndPrepare _) :: _ => False
  | d, _ :: X => Balanced d X

namespace HoldsOver

variable {seq : UInt64} {p₀ : Bytes} {rs₀ : List Record}
  {base : List SavePoint} {b : WriteBatch} {rs : List Record}

/-- **One call of a balanced run** keeps the invariant over the base, with the save points
the run has set on top of it. -/
theorem step (h : HoldsOver .encoded seq p₀ rs₀ base b rs) {d : Nat}
    (hl : b.savePoints.length = d + base.length) {s : Step} {X : List Step}
    (hX : Balanced d (s :: X)) (hs : ∀ src, s = .append src → ∃ ss, Holds .encoded src ss) :
    ∃ rs' d', HoldsOver .encoded seq p₀ rs₀ base (s.apply b) rs' ∧
      (s.apply b).savePoints.length = d' + base.length ∧ Balanced d' X := by
  cases s with
  | append src =>
      obtain ⟨ss, hss⟩ := hs src rfl
      exact ⟨_, d, h.append hss (.inl rfl), by rwa [Step.apply, savePoints_append], hX⟩
  | op op =>
      cases op with
      | append a =>
          obtain ⟨rs', -, h'⟩ := h.appendRecord (r := a.record) trivial
          rw [Step.apply, Op.apply, AppendOp.apply_eq h.rep_eq]
          exact ⟨rs', d, h', by rwa [savePoints_appendRecord], hX⟩
      | insertNoop => exact ⟨_, d, h.insertNoop, hl, hX⟩
      | markEndPrepare => exact hX.elim
      | markCommit xid => exact ⟨_, d, h.markCommit trivial, hl, hX⟩
      | markRollback xid => exact ⟨_, d, h.markRollback trivial, hl, hX⟩
      | markWalTerminationPoint => exact ⟨_, d, h, hl, hX⟩
      | hasFlag flag => exact ⟨_, d, h.hasFlag flag, by rwa [Step.apply, Op.apply, savePoints_hasFlag], hX⟩
      | clear => exact hX.elim
      | setSavePoint =>
          exact ⟨_, d + 1, h.setSavePoint, by simp [Step.apply, Op.apply, WriteBatch.setSavePoint, hl]; omega, hX⟩
      | rollbackToSavePoint =>
          obtain ⟨hd, hX⟩ := hX
          obtain ⟨rs', -, h', -, htail⟩ := h.rollbackToSavePoint (.inr (by omega))
          exact ⟨rs', d - 1, h', by rw [Step.apply, Op.apply, htail, List.length_tail]; omega, hX⟩
      | popSavePoint =>
          obtain ⟨hd, hX⟩ := hX
          refine ⟨rs, d - 1, h.popSavePoint (.inr (by omega)), ?_, hX⟩
          obtain ⟨sp, rest, hsp⟩ : ∃ sp rest, b.savePoints = sp :: rest :=
            List.exists_cons_of_length_pos (by omega)
          simp only [Step.apply, Op.apply, WriteBatch.popSavePoint, hsp]
          simp only [hsp, List.length_cons] at hl
          omega

/-- **A balanced run** keeps the invariant over the base, and leaves the stack as it found
the base. -/
theorem runSteps_over : ∀ (X : List Step) {d : Nat} {b : WriteBatch} {rs : List Record},
    HoldsOver .encoded seq p₀ rs₀ base b rs → b.savePoints.length = d + base.length →
    Balanced d X → (∀ src, Step.append src ∈ X → ∃ ss, Holds .encoded src ss) →
    ∃ rs', HoldsOver .encoded seq p₀ rs₀ base (runSteps b X) rs' ∧
      (runSteps b X).savePoints.length = base.length
  | [], d, _, rs, h, hl, hX, _ => ⟨rs, h, by rw [show d = 0 from hX] at hl; simpa using hl⟩
  | _ :: X, _, _, _, h, hl, hX, hsrc => by
      obtain ⟨rs', d', h', hl', hX'⟩ :=
        h.step hl hX fun src hs => hsrc src (hs ▸ List.mem_cons_self _ _)
      exact runSteps_over X h' hl' hX' fun src hs => hsrc src (List.mem_cons_of_mem _ hs)

/-- `RollbackToSavePoint` of the base's own save point, with none of the run's left above
it: back to the base payload, its count and its flags, and the stack under it. -/
theorem rollbackToSavePoint_base {f₀ : Nat} {sps : List SavePoint}
    (h : HoldsOver .encoded seq p₀ rs₀ (savePointOf p₀ rs₀ f₀ :: sps) b rs)
    (hl : b.savePoints.length = sps.length + 1) (hf₀ : Reading.encoded.Flags f₀ rs₀) :
    b.rollbackToSavePoint.2 = .ok ∧
      b.rollbackToSavePoint.1.rep = headerRep seq (countCounted rs₀).toUInt32 p₀ ∧
      b.rollbackToSavePoint.1.contentFlags = f₀ ∧ b.rollbackToSavePoint.1.savePoints = sps := by
  obtain ⟨-, p, new, hrep, hs, ha, hf⟩ := h
  obtain rfl : new = [] := List.eq_nil_of_length_eq_zero
    (by rw [hs, List.length_append, List.length_cons] at hl; omega)
  obtain @⟨q, ss, hq⟩ := ha
  rw [List.nil_append] at hs
  unfold WriteBatch.rollbackToSavePoint
  rw [hs]
  dsimp only
  by_cases hq0 : q = []
  · subst hq0
    obtain rfl := hq.eq_nil
    rw [if_pos (by simp [savePointOf, hrep])]
    rw [List.append_nil] at hf
    exact ⟨rfl, by simpa using hrep, by rw [hf.eq_classify hf.mod_two, hf₀.eq_classify hf₀.mod_two], rfl⟩
  · rw [if_neg (by simp [savePointOf, hrep, hq0]), if_neg (by simp [savePointOf, kHeader])]
    refine ⟨rfl, ?_, rfl, rfl⟩
    rw [setCount_rep _ seq (countCounted (rs₀ ++ ss)).toUInt32 p₀
      (by simp only [hrep]; exact resize_headerRep _ _ _ _), savePointOf, ofInt32_toInt32]

/-- **`SetSavePoint`, a balanced run, `RollbackToSavePoint`** leaves the representation, the
content flags and the stack as they were before the run. -/
theorem rollback_undoes_run (h : HoldsOver .encoded seq [] [] [] b rs) {X : List Step}
    (hX : Balanced 0 X) (hsrc : ∀ src, Step.append src ∈ X → ∃ ss, Holds .encoded src ss) :
    (runSteps b.setSavePoint X).rollbackToSavePoint.2 = .ok ∧
      (runSteps b.setSavePoint X).rollbackToSavePoint.1.rep = b.rep ∧
      (runSteps b.setSavePoint X).rollbackToSavePoint.1.contentFlags = b.contentFlags ∧
      (runSteps b.setSavePoint X).rollbackToSavePoint.1.savePoints = b.savePoints := by
  have hsp := h.savePoints_setSavePoint
  have h₁ := h.setSavePoint_base
  rw [hsp] at h₁
  obtain ⟨rs', h₂, hl⟩ := h₁.runSteps_over X (by simp [hsp]) hX hsrc
  obtain ⟨hok, hrep, hf, hs⟩ := h₂.rollbackToSavePoint_base (by simpa using hl) h.flags
  exact ⟨hok, hrep.trans h.rep_eq.symm, hf, hs⟩

end HoldsOver

theorem reachable_onePut : Reachable Fresh (fun _ _ => True) (fun _ w => w = false) onePut :=
  .step (.append (.put 0 [1] [2])) (.start ⟨0, rfl⟩) trivial trivial

/-- **Save points on the batches built from fresh ones.** Each save point is the size, the
header count and the flags of a prefix of the records, and the sizes grow from the bottom of
the stack to its top; `RollbackToSavePoint`'s assertions hold while there are fewer than
`2^31` counted records; and `SetSavePoint`, then any run that calls neither `Clear` nor
`MarkEndPrepare` and pops only the save points it sets, appending whole batches built the
same way, then `RollbackToSavePoint`, returns OK with the representation, the header count,
the content flags and the stack as they were before the run. -/
theorem rollbackToSavePoint_restores {b : WriteBatch}
    (hb : Reachable Fresh (fun _ _ => True) (fun _ w => w = false) b) :
    ∃ rs, Holds .encoded b rs ∧
      (∀ sp ∈ b.savePoints, ∃ rs₁, rs₁ <+: rs ∧
        sp = savePointOf (encodeRecords rs₁) rs₁ (classify rs₁)) ∧
      (b.savePoints.Pairwise fun above below => below.size ≤ above.size) ∧
      (countCounted rs < 2 ^ 31 → b.RollbackAssertions) ∧
      ∀ X : List Step, Balanced 0 X →
        (∀ src, Step.append src ∈ X → Reachable Fresh (fun _ _ => True) (fun _ w => w = false) src) →
        (runSteps b.setSavePoint X).rollbackToSavePoint.2 = .ok ∧
          (runSteps b.setSavePoint X).rollbackToSavePoint.1.rep = b.rep ∧
          (runSteps b.setSavePoint X).rollbackToSavePoint.1.count = b.count ∧
          (runSteps b.setSavePoint X).rollbackToSavePoint.1.contentFlags = b.contentFlags ∧
          (runSteps b.setSavePoint X).rollbackToSavePoint.1.savePoints = b.savePoints := by
  have hholds : ∀ {b}, Reachable Fresh (fun _ _ => True) (fun _ w => w = false) b →
      ∃ rs, Holds .encoded b rs :=
    fun hb => @Reachable.holds .encoded _ _ _ (fun _ ⟨m, hm⟩ => ⟨[], hm ▸ Holds.new .encoded m⟩)
      (fun _ _ _ _ _ => trivial) (fun _ _ hw => .inl hw) _ hb
  obtain ⟨rs, seq, h⟩ := hholds hb
  refine ⟨rs, ⟨seq, h⟩, h.savePoint_prefix, h.pairwise_size, h.rollbackAssertions,
    fun X hX hsrc => ?_⟩
  obtain ⟨hok, hrep, hf, hs⟩ := h.rollback_undoes_run hX fun src hm => hholds (hsrc src hm)
  exact ⟨hok, hrep, by rw [WriteBatch.count, hrep, WriteBatch.count], hf, hs⟩

theorem rollbackToSavePoint_restores_onePut :
    Reachable Fresh (fun _ _ => True) (fun _ w => w = false) onePut ∧
      ∃ rs, Holds .encoded onePut rs ∧
      (∀ sp ∈ onePut.savePoints, ∃ rs₁, rs₁ <+: rs ∧
        sp = savePointOf (encodeRecords rs₁) rs₁ (classify rs₁)) ∧
      (onePut.savePoints.Pairwise fun above below => below.size ≤ above.size) ∧
      (countCounted rs < 2 ^ 31 → onePut.RollbackAssertions) ∧
      ∀ X : List Step, Balanced 0 X →
        (∀ src, Step.append src ∈ X → Reachable Fresh (fun _ _ => True) (fun _ w => w = false) src) →
        (runSteps onePut.setSavePoint X).rollbackToSavePoint.2 = .ok ∧
          (runSteps onePut.setSavePoint X).rollbackToSavePoint.1.rep = onePut.rep ∧
          (runSteps onePut.setSavePoint X).rollbackToSavePoint.1.count = onePut.count ∧
          (runSteps onePut.setSavePoint X).rollbackToSavePoint.1.contentFlags =
            onePut.contentFlags ∧
          (runSteps onePut.setSavePoint X).rollbackToSavePoint.1.savePoints = onePut.savePoints :=
  ⟨reachable_onePut, rollbackToSavePoint_restores reachable_onePut⟩

/-! ## More than `2^31` counted records -/

/-- `2^k` copies of the `Put` of `onePut`: `onePut` appended to itself, `k` times over. -/
def doubledPuts : Nat → WriteBatch
  | 0 => onePut
  | k + 1 => (append (doubledPuts k) (doubledPuts k) false).1

/-- `2^k - 1` copies of the `Put` of `onePut`: a fresh batch, then `doubledPuts i` appended
for each `i < k`. -/
def manyPuts : Nat → WriteBatch
  | 0 => WriteBatch.new 0
  | k + 1 => (append (manyPuts k) (doubledPuts k) false).1

/-- A save point set on `2^31 - 1` counted records, then one more `Put`. -/
def overflowing : WriteBatch := (Op.append (.put 0 [1] [2])).apply (manyPuts 31).setSavePoint

theorem reachable_doubledPuts :
    ∀ k, Reachable Fresh (fun _ _ => True) (fun _ w => w = false) (doubledPuts k)
  | 0 => reachable_onePut
  | k + 1 => .append false (reachable_doubledPuts k) (reachable_doubledPuts k) rfl

theorem reachable_manyPuts :
    ∀ k, Reachable Fresh (fun _ _ => True) (fun _ w => w = false) (manyPuts k)
  | 0 => .start ⟨0, rfl⟩
  | k + 1 => .append false (reachable_manyPuts k) (reachable_doubledPuts k) rfl

theorem holdsOver_doubledPuts :
    ∀ k, ∃ rs, HoldsOver .encoded 0 [] [] [] (doubledPuts k) rs ∧ countCounted rs = 2 ^ k
  | 0 => ⟨_, (HoldsOver.new .encoded 0).appendOp_fits (.put 0 [1] [2]) trivial rfl, rfl⟩
  | k + 1 => by
      obtain ⟨rs, h, hc⟩ := holdsOver_doubledPuts k
      rw [doubledPuts]
      exact ⟨rs ++ rs, h.append ⟨0, h⟩ (.inl rfl), by rw [countCounted_append, hc, Nat.pow_succ]; omega⟩

theorem holdsOver_manyPuts :
    ∀ k, ∃ rs, HoldsOver .encoded 0 [] [] [] (manyPuts k) rs ∧ countCounted rs + 1 = 2 ^ k ∧
      (manyPuts k).maxBytes = 0
  | 0 => ⟨[], HoldsOver.new .encoded 0, rfl, rfl⟩
  | k + 1 => by
      obtain ⟨rs, h, hc, hm⟩ := holdsOver_manyPuts k
      obtain ⟨ss, hs, hcs⟩ := holdsOver_doubledPuts k
      rw [manyPuts]
      refine ⟨rs ++ ss, h.append ⟨0, hs⟩ (.inl rfl), ?_, by rw [maxBytes_append, hm]⟩
      rw [countCounted_append, hcs, Nat.pow_succ]
      omega

/-- A `Put` after a save point set on `2^31 - 1` counted records: the header count wraps to
`-2^31`, below the count of the save point. -/
theorem HoldsOver.put_after_savePoint_wraps {m : WriteBatch} {seq : UInt64} {rs : List Record}
    (h : HoldsOver .encoded seq [] [] [] m rs) (hc : countCounted rs + 1 = 2 ^ 31)
    (hm : m.maxBytes = 0) :
    ((Op.append (.put 0 [1] [2])).apply m.setSavePoint).count = -2 ^ 31 ∧
      ¬ ((Op.append (.put 0 [1] [2])).apply m.setSavePoint).RollbackAssertions := by
  have h₁ := h.setSavePoint.appendOp_fits (.put 0 [1] [2]) trivial hm
  have hc₁ : countCounted (rs ++ [AppendOp.record (.put 0 [1] [2])]) = 2 ^ 31 := by
    rw [countCounted_append, ← hc]
    rfl
  have hcount : ((Op.append (.put 0 [1] [2])).apply m.setSavePoint).count = -2 ^ 31 := by
    rw [count_headerRep _ _ _ _ h₁.rep_eq, hc₁]
    decide
  refine ⟨hcount, fun ha => ?_⟩
  have htop := h.setSavePoint.rep_eq
  have hsp : ((Op.append (.put 0 [1] [2])).apply m.setSavePoint).savePoints =
      ⟨m.getDataSize, m.count, m.contentFlags⟩ :: m.savePoints := by
    rw [Op.apply, AppendOp.apply_eq htop, savePoints_appendRecord]
    rfl
  have hle := (ha _ _ hsp).2
  dsimp only at hle
  rw [hcount, m.count_headerRep _ _ _ h.rep_eq, toInt32_toUInt32 (by omega)] at hle
  omega

/-- **The count assertion of `RollbackToSavePoint` fails** on a batch built from a fresh one:
`overflowing` sets a save point on `2^31 - 1` counted records and writes one more, and its
header count reads `-2^31`. -/
theorem overflowing_fails_rollbackAssertions :
    Reachable Fresh (fun _ _ => True) (fun _ w => w = false) overflowing ∧
      overflowing.count = -2 ^ 31 ∧ ¬ overflowing.RollbackAssertions := by
  obtain ⟨rs, h, hc, hm⟩ := holdsOver_manyPuts 31
  exact ⟨.step _ (.step .setSavePoint (reachable_manyPuts 31) trivial trivial) trivial trivial,
    h.put_after_savePoint_wraps hc hm⟩

end RocksBatch
