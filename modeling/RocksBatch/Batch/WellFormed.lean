import RocksBatch.Batch.Invariant

set_option autoImplicit false

/-! # Well-formed batches

The batches whose payload the decoder reads back as it was written: made from fresh batches
and from bytes that `Iterate` accepts, by calls whose keys, values, blobs and xids fit their
`varint32` length prefixes, and by `Append`s that copy the whole of another such batch. They
keep the invariant `Holds .decoded`, and on them the header, the content flags and the
queries all answer from the records:

* `WellFormed.holds`: a well-formed batch holds the records its payload reads as.
* `Holds.count_eq`: the header count is the number of counted records, when below `2^31`.
* `Holds.hasFlag_fst`: each `Has*` query answers whether there is a record of its kind.
* `Holds.contentFlagAssert`: every content-flag assertion of `Iterate` holds.
-/

namespace RocksBatch

/-- A batch made by `WriteBatch(rep)` from bytes on which `Iterate` with the classifier
returns OK. -/
def Accepted (b : WriteBatch) : Prop :=
  ∃ rep, b = WriteBatch.ofRep rep ∧ (b.iterate batchContentClassifier 0).1 = .ok

/-- **Well-formed batches**: reachable from fresh and accepted batches by calls whose fields
are shorter than `2^32` bytes, and by `Append`s of whole batches. -/
def WellFormed : WriteBatch → Prop :=
  Reachable (fun b => Fresh b ∨ Accepted b) (fun op _ => op.Small) WholeAppend

theorem WellFormed.holds {b : WriteBatch} (hb : WellFormed b) : ∃ rs, Holds .decoded b rs := by
  refine Reachable.holds ?_ (fun _ _ hs r hr => Reading.admits_of_small (hs r hr))
    (fun _ _ hw => hw) hb
  rintro b (⟨max_bytes, rfl⟩ | ⟨rep, rfl, hok⟩)
  · exact ⟨[], Holds.new .decoded max_bytes⟩
  · exact Holds.ofRep hok

namespace Holds

variable {ρ : Reading} {b : WriteBatch} {rs : List Record}

theorem rep_eq (h : Holds ρ b rs) :
    b.rep = headerRep b.sequence (countCounted rs).toUInt32 (b.rep.drop kHeader) := by
  obtain ⟨seq, h⟩ := h
  rw [b.sequence_headerRep seq _ _ h.rep_eq]
  exact h.rep_eq

theorem parses (h : Holds .decoded b rs) : Parses (b.rep.drop kHeader) rs :=
  let ⟨_, h⟩ := h
  h.reads

theorem flags (h : Holds ρ b rs) : ρ.Flags b.contentFlags rs := by
  obtain ⟨_, -, _, _, -, -, -, hf⟩ := h
  exact hf

theorem count_eq (h : Holds ρ b rs) (hc : countCounted rs < 2 ^ 31) :
    b.count = countCounted rs := by
  rw [b.count_headerRep _ _ _ h.rep_eq, toInt32_toUInt32 hc]

theorem computeContentFlags_fst (h : Holds ρ b rs) : b.computeContentFlags.1 = classify rs := by
  obtain ⟨_, h⟩ := h
  rw [h.computeContentFlags_eq]

/-- Each `Has*` query answers whether a record of its kind is there. -/
theorem hasFlag_fst (h : Holds ρ b rs) {flag : Nat} (hk : flag ∈ ContentFlags.kinds) :
    (b.hasFlag flag).1 = decide (∃ r ∈ rs, r.flag = flag) := by
  have hne : flag ≠ 0 := (by decide : ∀ f ∈ ContentFlags.kinds, f ≠ 0) flag hk
  simp only [WriteBatch.hasFlag, h.computeContentFlags_fst, classify_and_kind hk]
  split <;> simp_all

/-- The content-flag assertion of `Iterate` holds for every record of the batch: either
the flags are deferred, or they are those of the records. -/
theorem contentFlagAssert (h : Holds ρ b rs) : ∀ r ∈ rs, contentFlagAssert b.contentFlags r := by
  intro r hr hr0
  rw [Nat.and_or_distrib_left]
  by_cases hd : b.contentFlags % 2 = 1
  · rw [Nat.or_comm]
    exact or_ne_zero_of_right _ ((and_deferred_ne_zero_iff _).mpr hd)
  · have hk : r.flag ∈ ContentFlags.kinds := (List.mem_cons.mp r.flag_mem).resolve_left hr0
    rw [h.flags.eq_classify (Nat.mod_two_ne_one.mp hd), classify_and_kind hk,
      if_pos ⟨r, hr, rfl⟩]
    exact or_ne_zero_of_right _ hr0

end Holds

/-- A fresh batch after one `Put` of the key `[1]` and the value `[2]`. -/
def onePut : WriteBatch := (Op.append (.put 0 [1] [2])).apply (WriteBatch.new 0)

theorem wellFormed_onePut : WellFormed onePut :=
  .step _ (.start (.inl ⟨0, rfl⟩)) trivial (by decide)

theorem parses_onePut : Parses (onePut.rep.drop kHeader) [.put 0 [1] [2]] := by
  rw [show onePut.rep.drop kHeader = encodeRecords [.put 0 [1] [2]] by decide]
  exact parses_encodeRecords (by decide)

end RocksBatch
