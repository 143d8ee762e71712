import RocksBatch.Batch.Invariant

set_option autoImplicit false

/-! # Appends are all or nothing

Every append that runs under a local save point (the ten counted appends and `PutLogData`)
either fails past `max_bytes` and leaves the batch exactly as it was, or succeeds, adds the
encoding of its record to the payload and counts it (`append_atomic`).

* `WellSized`: every batch a program builds has at least its header, and every save point
  was taken on such a batch. It is all that the law needs of a batch: the representation is
  then a header and a payload.
-/

namespace RocksBatch

/-- The representation holds at least the header, and so did every saved one. -/
def WellSized (b : WriteBatch) : Prop :=
  kHeader ≤ b.rep.length ∧ ∀ sp ∈ b.savePoints, kHeader ≤ sp.size

namespace WellSized

open WriteBatch WriteBatchInternal

variable {b : WriteBatch}

theorem length_setCount (hb : kHeader ≤ b.rep.length) (n : Int) :
    (b.setCount n).rep.length = b.rep.length := by
  simp [setCount, kHeader] at hb ⊢
  omega

theorem pushRecord (h : WellSized b) (seq : UInt64) (cnt : UInt32) (p : Bytes) (r : Record) :
    WellSized (b.pushRecord seq cnt p r) :=
  ⟨by simp [WriteBatch.pushRecord], h.2⟩

theorem appendRecord (h : WellSized b) (seq : UInt64) (cnt : UInt32) (p : Bytes) (r : Record) :
    WellSized (b.appendRecord seq cnt p r).1 := by
  unfold WriteBatch.appendRecord
  split
  · exact h.pushRecord seq cnt p r
  · exact h

/-- **Every call keeps a batch well sized.** -/
theorem apply (h : WellSized b) (op : Op) : WellSized (op.apply b) := by
  obtain ⟨seq, cnt, hrep⟩ := eq_headerRep h.1
  cases op with
  | append a =>
      rw [Op.apply, AppendOp.apply_eq hrep]
      exact h.appendRecord ..
  | insertNoop =>
      rw [Op.apply, insertNoop_eq hrep]
      exact h.pushRecord ..
  | markEndPrepare xid =>
      refine ⟨?_, by simp [Op.apply, WriteBatchInternal.markEndPrepare]⟩
      simp only [Op.apply, WriteBatchInternal.markEndPrepare, putLengthPrefixedSlice_eq,
        List.length_append, List.length_set]
      have := h.1
      omega
  | markCommit xid =>
      rw [Op.apply, markCommit_eq hrep]
      exact h.pushRecord ..
  | markRollback xid =>
      rw [Op.apply, markRollback_eq hrep]
      exact h.pushRecord ..
  | markWalTerminationPoint => exact h
  | hasFlag flag =>
      simp only [Op.apply, WriteBatch.hasFlag, computeContentFlags]
      split
      · exact h
      · exact h
  | clear => exact ⟨by simp [Op.apply, WriteBatch.clear], by simp [Op.apply, WriteBatch.clear]⟩
  | setSavePoint =>
      refine ⟨h.1, ?_⟩
      simp only [Op.apply, WriteBatch.setSavePoint, List.mem_cons, forall_eq_or_imp]
      exact ⟨h.1, h.2⟩
  | rollbackToSavePoint =>
      simp only [Op.apply, WriteBatch.rollbackToSavePoint]
      split
      · exact h
      · rename_i sp rest hsp
        have hsp' : kHeader ≤ sp.size := h.2 sp (by simp [hsp])
        have hrest : ∀ s ∈ rest, kHeader ≤ s.size := fun s hs => h.2 s (by simp [hsp, hs])
        split
        · exact ⟨h.1, hrest⟩
        · split
          · exact ⟨by simp [WriteBatch.clear], by simp [WriteBatch.clear]⟩
          · refine ⟨?_, hrest⟩
            show kHeader ≤ (({ b with savePoints := rest, rep := resize b.rep sp.size } :
              WriteBatch).setCount sp.count).rep.length
            rw [length_setCount (by simp [resize]; omega)]
            simp [resize]
            omega
  | popSavePoint =>
      simp only [Op.apply, WriteBatch.popSavePoint]
      split
      · exact h
      · rename_i sp rest hsp
        exact ⟨h.1, fun s hs => h.2 s (by simp [hsp, hs])⟩

theorem append (h : WellSized b) (src : WriteBatch) (wal_only : Bool) :
    WellSized (WriteBatchInternal.append b src wal_only).1 := by
  obtain ⟨seq, cnt, hrep⟩ := eq_headerRep h.1
  rw [append_eq hrep]
  exact ⟨by simp, h.2⟩

end WellSized

/-- Every batch built from fresh batches by any calls and any `Append`s is well sized. -/
theorem Reachable.wellSized {Start : WriteBatch → Prop} {Allowed : Op → WriteBatch → Prop}
    {AppendAllowed : WriteBatch → Bool → Prop} (hstart : ∀ b, Start b → WellSized b)
    {b : WriteBatch} (hb : Reachable Start Allowed AppendAllowed b) : WellSized b := by
  induction hb with
  | start hs => exact hstart _ hs
  | step op _ _ _ ih => exact ih.apply op
  | append w _ _ _ ihd _ => exact ihd.append _ w

theorem wellSized_new (max_bytes : Nat) : WellSized (WriteBatch.new max_bytes) :=
  ⟨by simp [WriteBatch.new], by simp [WriteBatch.new]⟩

/-- **Appends are atomic under `max_bytes`**: on a batch built from a fresh batch by any
calls, with a byte limit, an append that would take the representation past the limit
fails and leaves the batch exactly as it was; any other succeeds, its record's encoding
follows the payload, and the header count grows by one for a counted append. -/
theorem append_atomic {b : WriteBatch}
    (hb : Reachable Fresh (fun _ _ => True) (fun _ _ => True) b)
    (hm : 0 < b.maxBytes) (a : AppendOp) :
    if b.maxBytes < b.rep.length + a.record.encode.length then
      (a.apply b).2 ≠ .ok ∧ (a.apply b).1 = b
    else
      (a.apply b).2 = .ok ∧
        (a.apply b).1.rep.drop kHeader = b.rep.drop kHeader ++ a.record.encode ∧
        decodeFixed32 ((a.apply b).1.rep.drop 8) =
          if a.record.IsCounted then decodeFixed32 (b.rep.drop 8) + 1
          else decodeFixed32 (b.rep.drop 8) := by
  have hw := hb.wellSized (by rintro _ ⟨m, rfl⟩; exact wellSized_new m)
  obtain ⟨seq, cnt, hrep⟩ := eq_headerRep hw.1
  rw [AppendOp.apply_eq hrep, WriteBatch.appendRecord]
  have hlen : b.rep.length = kHeader + (b.rep.drop kHeader).length := by
    simp [hw.1]
  by_cases hfit : b.maxBytes < b.rep.length + a.record.encode.length
  · rw [if_pos hfit, if_neg (by simp only [WriteBatch.Fits]; omega)]
    exact ⟨by simp, rfl⟩
  · rw [if_neg hfit, if_pos (by simp only [WriteBatch.Fits]; omega)]
    refine ⟨rfl, by simp [WriteBatch.pushRecord], ?_⟩
    simp only [WriteBatch.pushRecord]
    rw [hrep]
    simp only [headerRep, List.append_assoc, List.drop_left' (length_encodeFixed64 seq),
      decodeFixed32_encodeFixed32]

/-- A `Put` of five bytes on a fresh batch limited to fourteen fails and changes nothing. -/
theorem append_atomic_past_limit :
    Reachable Fresh (fun _ _ => True) (fun _ _ => True) (WriteBatch.new 14) ∧
      0 < (WriteBatch.new 14).maxBytes ∧
      ((AppendOp.put 0 [1] [2]).apply (WriteBatch.new 14)).1 = WriteBatch.new 14 := by
  have hb : Reachable Fresh (fun _ _ => True) (fun _ _ => True) (WriteBatch.new 14) :=
    .start ⟨14, rfl⟩
  have h := append_atomic hb (by decide) (.put 0 [1] [2])
  rw [if_pos (by decide)] at h
  exact ⟨hb, by decide, h.2⟩

end RocksBatch
