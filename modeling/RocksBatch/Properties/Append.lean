import RocksBatch.Batch.WellFormed
import RocksBatch.Properties.RoundTrip

set_option autoImplicit false

/-! # Content flags and Append on well-formed batches

The content flags a batch keeps are set by the appends from the record written, and the
classifier reads them off the records the decoder finds. The two agree on well-formed
batches (`contentFlags_exact`): when the flags are not deferred they are the classifier's,
each `Has*` query answers whether a record of its kind is there, and the content-flag
assertions of `Iterate` hold.

`WriteBatchInternal::Append` of a whole batch adds its count to the header and its payload
after the payload. On well-formed batches whose payloads read as `rsA` and `rsB`, with fewer
than `2^31` counted records together, the result reads as `rsA ++ rsB` and `Iterate` makes
the calls of the one and then of the other (`append_concat`).

Both fail once a field does not fit its length prefix: see `Properties.LongFields`.
-/

namespace RocksBatch

open WriteBatchInternal

/-- **The content flags are those of the records** on a well-formed batch: without
`DEFERRED` they are what the classifier computes, every `Has*` query answers whether the
payload has a record of its kind, and every content-flag assertion of `Iterate` holds. -/
theorem contentFlags_exact {b : WriteBatch} (hb : WellFormed b) :
    ∃ rs, Parses (b.rep.drop kHeader) rs ∧
      (b.contentFlags &&& ContentFlags.deferred = 0 →
        b.contentFlags = (b.iterate batchContentClassifier 0).2) ∧
      (∀ flag ∈ ContentFlags.kinds, (b.hasFlag flag).1 = decide (∃ r ∈ rs, r.flag = flag)) ∧
      ∀ r ∈ rs, contentFlagAssert b.contentFlags r := by
  obtain ⟨rs, h⟩ := hb.holds
  refine ⟨rs, h.parses, fun hd => ?_, fun _ hk => h.hasFlag_fst hk, h.contentFlagAssert⟩
  have hd' : b.contentFlags % 2 = 0 :=
    Nat.mod_two_ne_one.mp fun h1 => (and_deferred_ne_zero_iff _).mpr h1 hd
  rw [b.iterate_classifier_snd h.rep_eq h.parses]
  exact h.flags.eq_classify hd'

theorem contentFlags_exact_onePut :
    WellFormed onePut ∧ ∃ rs, Parses (onePut.rep.drop kHeader) rs ∧
      (onePut.contentFlags &&& ContentFlags.deferred = 0 →
        onePut.contentFlags = (onePut.iterate batchContentClassifier 0).2) ∧
      (∀ flag ∈ ContentFlags.kinds, (onePut.hasFlag flag).1 = decide (∃ r ∈ rs, r.flag = flag)) ∧
      ∀ r ∈ rs, contentFlagAssert onePut.contentFlags r :=
  ⟨wellFormed_onePut, contentFlags_exact wellFormed_onePut⟩

/-- **`Append` concatenates** two well-formed batches with fewer than `2^31` counted records
together, appended whole: the result reads as the records of the first then those of the
second, `Iterate` returns OK with the calls of both in that order, the header keeps its
sequence and adds the counts, each `Has*` query answers the disjunction and the size is
`AppendedByteSize`. -/
theorem append_concat {A B : WriteBatch} (hA : WellFormed A) (hB : WellFormed B)
    {rsA rsB : List Record} (hpA : Parses (A.rep.drop kHeader) rsA)
    (hpB : Parses (B.rep.drop kHeader) rsB) (hc : countCounted rsA + countCounted rsB < 2 ^ 31)
    {wal_only : Bool} (hw : WholeAppend B wal_only) :
    Parses ((append A B wal_only).1.rep.drop kHeader) (rsA ++ rsB) ∧
      (append A B wal_only).1.iterate recorder [] =
        (.ok, (A.iterate recorder []).2 ++ (B.iterate recorder []).2) ∧
      (append A B wal_only).1.sequence = A.sequence ∧
      (append A B wal_only).1.count = A.count + B.count ∧
      (∀ flag ∈ ContentFlags.kinds,
        ((append A B wal_only).1.hasFlag flag).1 = ((A.hasFlag flag).1 || (B.hasFlag flag).1)) ∧
      (append A B wal_only).1.getDataSize = appendedByteSize A.getDataSize B.getDataSize := by
  obtain ⟨rsA', hA⟩ := hA.holds
  obtain ⟨rsB', hB⟩ := hB.holds
  obtain rfl := hA.parses.det hpA
  obtain rfl := hB.parses.det hpB
  have h := hA.append hB hw
  have hr := append_rep hA.rep_eq hB.rep_eq hw
  have hlA := congrArg List.length hA.rep_eq
  have hlB := congrArg List.length hB.rep_eq
  simp only [length_headerRep] at hlA hlB
  have hc' : countCounted (rsA' ++ rsB') < 2 ^ 31 := by rwa [countCounted_append]
  refine ⟨h.parses, ?_, WriteBatch.sequence_headerRep _ _ _ _ hr, ?_, fun flag hk => ?_, ?_⟩
  · rw [iterate_recorder h.rep_eq h.parses hc', iterate_recorder hA.rep_eq hA.parses (by omega),
      iterate_recorder hB.rep_eq hB.parses (by omega), List.filterMap_append]
  · rw [h.count_eq hc', hA.count_eq (by omega), hB.count_eq (by omega), countCounted_append]
    push_cast
    rfl
  · rw [h.hasFlag_fst hk, hA.hasFlag_fst hk, hB.hasFlag_fst hk]
    simp [or_and_right, exists_or]
  · simp only [WriteBatch.getDataSize, appendedByteSize, hr, length_headerRep,
      List.length_append]
    rw [if_neg (by rw [hlA, hlB]; simp [kHeader])]
    omega

theorem append_concat_onePut :
    WellFormed (WriteBatch.new 0) ∧ WellFormed onePut ∧
      Parses ((WriteBatch.new 0).rep.drop kHeader) [] ∧
      Parses (onePut.rep.drop kHeader) [.put 0 [1] [2]] ∧
      countCounted [] + countCounted [.put 0 [1] [2]] < 2 ^ 31 ∧ WholeAppend onePut false ∧
      Parses ((append (WriteBatch.new 0) onePut false).1.rep.drop kHeader)
        ([] ++ [.put 0 [1] [2]]) ∧
      (append (WriteBatch.new 0) onePut false).1.iterate recorder [] =
        (.ok, ((WriteBatch.new 0).iterate recorder []).2 ++ (onePut.iterate recorder []).2) ∧
      (append (WriteBatch.new 0) onePut false).1.sequence = (WriteBatch.new 0).sequence ∧
      (append (WriteBatch.new 0) onePut false).1.count =
        (WriteBatch.new 0).count + onePut.count ∧
      (∀ flag ∈ ContentFlags.kinds,
        ((append (WriteBatch.new 0) onePut false).1.hasFlag flag).1 =
          (((WriteBatch.new 0).hasFlag flag).1 || (onePut.hasFlag flag).1)) ∧
      (append (WriteBatch.new 0) onePut false).1.getDataSize =
        appendedByteSize (WriteBatch.new 0).getDataSize onePut.getDataSize := by
  have hA : WellFormed (WriteBatch.new 0) := .start (.inl ⟨0, rfl⟩)
  have hpA : Parses ((WriteBatch.new 0).rep.drop kHeader) [] := by
    rw [WriteBatch.new_rep, drop_kHeader_headerRep]
    exact .nil
  have hc : countCounted [] + countCounted [Record.put 0 [1] [2]] < 2 ^ 31 := by decide
  exact ⟨hA, wellFormed_onePut, hpA, parses_onePut, hc, .inl rfl,
    append_concat hA wellFormed_onePut hpA parses_onePut hc (.inl rfl)⟩

end RocksBatch
