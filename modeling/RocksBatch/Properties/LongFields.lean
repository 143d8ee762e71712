import RocksBatch.Batch.Layout
import RocksBatch.Properties.RoundTrip

set_option autoImplicit false

/-! # Fields longer than their length prefix

`PutLengthPrefixedSlice` stores the length of a field as a `varint32`, which keeps it modulo
`2^32`, and nothing in the appends checks the length. A field of `2^32` bytes or more is
written whole but read back short, and the decoder then reads the rest of the field as
records.

* `longPut`: the batch with one `Put` of the empty key and a value of `2^32` zero bytes.
* `longPut_rep`: its payload reads as an empty `Put` followed by `2^31` deletions of the
  empty key on the default column family (`parses_longPutRecords`).
* `longPut_ok_misread`: that `Put` returns OK for a record no bytes of the format hold, and
  `Iterate` then makes the calls of those records, none of which was appended.
* `longPut_contentFlags_inexact`: the flags of `longPut`, not deferred, are those of its one
  `Put`; the classifier finds deletions too, and the assertion of `Iterate` on `HAS_DELETE`
  fails at them.
* `append_longPut_iterate_fails`: appended to a fresh batch, `longPut` adds one to the count,
  and `Iterate` on the result fails the same assertion and its count check.
* `append_checks_no_length`: an append fails only past `max_bytes`, leaving the batch as it
  was; otherwise it writes its record whatever the length of its fields. The decoder never
  reads back a record with a field of `2^32` bytes or more, and reads back every other one.
-/

namespace RocksBatch

/-- A value of `2^32` zero bytes. -/
def longValue : Bytes := List.replicate (2 ^ 32) 0

/-- A fresh batch after a `Put` of the empty key and `longValue`. -/
def longPut : WriteBatch := (WriteBatchInternal.put (WriteBatch.new 0) 0 [] longValue).1

/-- The records the payload of `longPut` reads as. -/
def longPutRecords : List Record := .put 0 [] [] :: List.replicate (2 ^ 31) (.delete 0 [])

theorem encodeRecords_replicate_delete (n : Nat) :
    encodeRecords (List.replicate n (.delete 0 [])) = List.replicate (2 * n) 0 := by
  induction n with
  | zero => rfl
  | succ n ih =>
      rw [List.replicate_succ, encodeRecords_cons, ih, show 2 * (n + 1) = 2 * n + 1 + 1 by omega]
      rfl

theorem longValue_eq : longValue = encodeRecords (List.replicate (2 ^ 31) (.delete 0 [])) := by
  rw [encodeRecords_replicate_delete, longValue, show 2 * 2 ^ 31 = 2 ^ 32 by norm_num]

theorem encode_put_longValue :
    (Record.put 0 [] longValue).encode = encodeRecords longPutRecords := by
  have hlen : longValue.length.toUInt32 = 0 := by rw [longValue, List.length_replicate]; rfl
  rw [longPutRecords, encodeRecords_cons, ← longValue_eq]
  simp only [Record.encode, Record.body, Record.tag, Record.cfTag, Record.cfBytes,
    lengthPrefixed, hlen]
  rfl

theorem longPut_rep : longPut.rep = headerRep 0 1 (encodeRecords longPutRecords) := by
  have h : longPut = (WriteBatch.new 0).pushRecord 0 0 [] (.put 0 [] longValue) := by
    rw [longPut, WriteBatchInternal.put_eq (WriteBatch.new_rep 0), WriteBatch.appendRecord,
      if_pos (.inl rfl)]
  have hrep : ((WriteBatch.new 0).pushRecord 0 0 [] (.put 0 [] longValue)).rep =
      headerRep 0 1 ([] ++ (Record.put 0 [] longValue).encode) := rfl
  rw [h, hrep, List.nil_append, encode_put_longValue]

theorem longPut_contentFlags : longPut.contentFlags = ContentFlags.hasPut := rfl

theorem parses_longPutRecords : Parses (encodeRecords longPutRecords) longPutRecords :=
  parses_encodeRecords (by
    simp only [longPutRecords, List.mem_cons, List.mem_replicate]
    rintro r (rfl | ⟨-, rfl⟩) <;> simp [Record.Small, Record.fields])

theorem countCounted_replicate (n : Nat) (r : Record) (hr : r.IsCounted) :
    countCounted (List.replicate n r) = n := by
  induction n with
  | zero => rfl
  | succ n ih => rw [List.replicate_succ, countCounted_cons, ih, if_pos hr, Nat.add_comm]

theorem countCounted_longPutRecords : countCounted longPutRecords = 1 + 2 ^ 31 := by
  rw [longPutRecords, countCounted_cons, countCounted_replicate _ (.delete 0 []) rfl]
  rfl

theorem classify_replicate (n : Nat) (r : Record) :
    classify (List.replicate (n + 1) r) = r.flag := by
  induction n with
  | zero => simp
  | succ n ih => rw [List.replicate_succ, classify_cons, ih, Nat.or_self]

theorem classify_longPutRecords :
    classify longPutRecords = ContentFlags.hasPut ||| ContentFlags.hasDelete := by
  rw [longPutRecords, classify_cons, show 2 ^ 31 = (2 ^ 31 - 1) + 1 by norm_num,
    classify_replicate]
  rfl

theorem delete_mem_longPutRecords : Record.delete 0 [] ∈ longPutRecords :=
  List.mem_cons_of_mem _ (List.mem_replicate.mpr ⟨by norm_num, rfl⟩)

/-- No varstring holds `longValue`: its length does not fit a `uint32_t`. -/
theorem not_varstring_longValue (bs : Bytes) : ¬ Varstring bs longValue := fun h =>
  absurd h.length_lt (by rw [longValue, List.length_replicate]; exact lt_irrefl _)

/-- The assertion of `Iterate` before a deletion fails under the flags of one `Put`. -/
theorem not_contentFlagAssert_delete : ¬ contentFlagAssert ContentFlags.hasPut (.delete 0 []) := by
  unfold contentFlagAssert
  decide

/-- **A field longer than its length prefix is stored and misread**: the `Put` of `longPut`
returns OK and changes the batch, though no bytes of the format hold the record it was
asked to write, and `Iterate` then calls the recording handler with the records of
`longPutRecords`: first a `Put` with an empty value, then deletions never appended. -/
theorem longPut_ok_misread :
    (WriteBatchInternal.put (WriteBatch.new 0) 0 [] longValue).2 = .ok ∧
      longPut ≠ WriteBatch.new 0 ∧
      (∀ bs, ¬ RecordLayout bs (.put 0 [] longValue)) ∧
      (longPut.iterate recorder []).2 = longPutRecords.filterMap Record.call ∧
      (longPut.iterate recorder []).2.head? = some (.putCF 0 [] []) ∧
      Call.deleteCF 0 [] ∈ (longPut.iterate recorder []).2 := by
  have hcalls : (longPut.iterate recorder []).2 = longPutRecords.filterMap Record.call := by
    rw [longPut.iterate_snd_eq_runRecords recorder [] longPut_rep parses_longPutRecords,
      recorder_runRecords, List.nil_append]
  refine ⟨?_, fun h => ?_, fun bs h => ?_, hcalls, ?_, ?_⟩
  · rw [WriteBatchInternal.put_eq (WriteBatch.new_rep 0), WriteBatch.appendRecord,
      if_pos (.inl rfl)]
  · have hc := congrArg WriteBatch.count h
    rw [longPut.count_headerRep _ _ _ longPut_rep,
      (WriteBatch.new 0).count_headerRep _ _ _ (WriteBatch.new_rep 0)] at hc
    exact absurd hc (by decide)
  · cases h with
    | value _ hv => exact not_varstring_longValue _ hv
    | columnFamilyValue _ _ hv => exact not_varstring_longValue _ hv
  · rw [hcalls, longPutRecords, List.filterMap_cons]
    rfl
  · rw [hcalls, longPutRecords, List.filterMap_cons, show 2 ^ 31 = 2 ^ 31 - 1 + 1 by norm_num,
      List.replicate_succ, List.filterMap_cons]
    exact List.mem_cons_of_mem _ (List.mem_cons_self _ _)

/-- `longPut` is built from a fresh batch by one `Put`; its flags are not deferred, yet they
are not what the classifier computes on its payload, and `Iterate` asserts `HAS_DELETE` on
the deletions it reads there. -/
theorem longPut_contentFlags_inexact :
    Reachable Fresh (fun _ _ => True) (fun _ w => w = false) longPut ∧
      longPut.contentFlags &&& ContentFlags.deferred = 0 ∧
      (longPut.iterate batchContentClassifier 0).2 =
        ContentFlags.hasPut ||| ContentFlags.hasDelete ∧
      longPut.contentFlags ≠ (longPut.iterate batchContentClassifier 0).2 ∧
      Parses (longPut.rep.drop kHeader) longPutRecords ∧ .delete 0 [] ∈ longPutRecords ∧
      ¬ contentFlagAssert longPut.contentFlags (.delete 0 []) := by
  have hcl : (longPut.iterate batchContentClassifier 0).2 =
      ContentFlags.hasPut ||| ContentFlags.hasDelete := by
    rw [longPut.iterate_classifier_snd longPut_rep parses_longPutRecords, classify_longPutRecords]
  have hp : Parses (longPut.rep.drop kHeader) longPutRecords := by
    rw [longPut_rep, drop_kHeader_headerRep]
    exact parses_longPutRecords
  refine ⟨.step (.append (.put 0 [] longValue)) (.start ⟨0, rfl⟩) trivial trivial,
    by rw [longPut_contentFlags]; rfl, hcl, by rw [longPut_contentFlags, hcl]; decide, hp,
    delete_mem_longPutRecords, not_contentFlagAssert_delete⟩

/-- `longPut` holds one counted record as written; appended to a fresh batch, it leaves a
batch whose payload reads as `longPutRecords` under the flags of one `Put`, so that the
assertion of `Iterate` on `HAS_DELETE` fails at its deletions, and `Iterate` returns a
corruption. -/
theorem append_longPut_iterate_fails :
    Reachable Fresh (fun _ _ => True) (fun _ _ => True) longPut ∧
      (WriteBatch.new 0).count + longPut.count = 1 ∧
      Parses ((WriteBatchInternal.append (WriteBatch.new 0) longPut false).1.rep.drop kHeader)
        longPutRecords ∧ .delete 0 [] ∈ longPutRecords ∧
      ¬ contentFlagAssert (WriteBatchInternal.append (WriteBatch.new 0) longPut false).1.contentFlags
        (.delete 0 []) ∧
      ((WriteBatchInternal.append (WriteBatch.new 0) longPut false).1.iterate recorder []).1 ≠ .ok := by
  have hr := WriteBatchInternal.append_rep (WriteBatch.new_rep 0) longPut_rep (.inl rfl)
  rw [List.nil_append] at hr
  refine ⟨.step (.append (.put 0 [] longValue)) (.start ⟨0, rfl⟩) trivial trivial, ?_,
    by rw [hr, drop_kHeader_headerRep]; exact parses_longPutRecords, delete_mem_longPutRecords,
    ?_, ?_⟩
  · rw [(WriteBatch.new 0).count_headerRep _ _ _ (WriteBatch.new_rep 0),
      longPut.count_headerRep _ _ _ longPut_rep]
    rfl
  · rw [WriteBatchInternal.append_contentFlags longPut_rep (.inl rfl), longPut_contentFlags]
    exact not_contentFlagAssert_delete
  · rw [WriteBatch.iterate_eq_runRecords _ recorder [] hr parses_longPutRecords,
      recorder_runRecords, countCounted_longPutRecords]
    intro h
    cases h

/-- **The appends check no length.** On a well-formed batch holding `rs`, every counted
append (`Slice` or `SliceParts` form) and `PutLogData` fails only when the batch would
exceed `max_bytes`, and then leaves it as it was; otherwise it returns OK and writes its
record after the payload, each length prefix keeping the field's length modulo `2^32`.
The decoder never reads a record with a field of `2^32` bytes or more back from its bytes;
when every field is shorter, the batch holds `rs` and the record, and `Iterate` makes the
calls of both, in order. -/
theorem append_checks_no_length {b : WriteBatch} {rs : List Record} (h : Holds .decoded b rs)
    (a : AppendOp) :
    ((a.apply b).2 = .ok ↔ b.Fits (b.rep.length + a.record.encode.length)) ∧
      ((a.apply b).2 ≠ .ok → (a.apply b).1 = b) ∧
      ((a.apply b).2 = .ok → (a.apply b).1.rep.drop kHeader = b.rep.drop kHeader ++ a.record.encode) ∧
      (¬ a.record.Small →
        ∀ rest, readRecordFromWriteBatch a.record.tag.toByte (a.record.body ++ rest) ≠
          .ok (a.record, rest)) ∧
      ((a.apply b).2 = .ok → a.record.Small → countCounted (rs ++ [a.record]) < 2 ^ 31 →
        (a.apply b).1.iterate recorder [] = (.ok, (rs ++ [a.record]).filterMap Record.call)) := by
  obtain ⟨seq, h⟩ := h
  have hlen : b.rep.length = kHeader + (b.rep.drop kHeader).length := by
    conv_lhs => rw [h.rep_eq]
    exact length_headerRep ..
  have hnot : ¬ a.record.Small → ∀ rest, readRecordFromWriteBatch a.record.tag.toByte
      (a.record.body ++ rest) ≠ .ok (a.record, rest) :=
    fun hs rest hr => hs (readRecordFromWriteBatch_small hr)
  rw [AppendOp.apply_eq h.rep_eq, WriteBatch.appendRecord, hlen]
  by_cases hf : b.Fits (kHeader + (b.rep.drop kHeader).length + a.record.encode.length)
  · rw [if_pos hf]
    refine ⟨iff_of_true rfl hf, fun hne => absurd rfl hne, fun _ => ?_, hnot, fun _ hs hc => ?_⟩
    · simp [WriteBatch.pushRecord]
    · have h' := h.pushRecord hs
      exact iterate_recorder h'.rep_eq h'.reads hc
  · rw [if_neg hf]
    have hne : Status.batchTooLarge ≠ .ok := by decide
    exact ⟨iff_of_false hne hf, fun _ => rfl, fun h => absurd h hne, hnot, fun h => absurd h hne⟩

theorem append_checks_no_length_put :
    Holds .decoded (WriteBatch.new 0) [] ∧
      (((AppendOp.put 0 [1] [2]).apply (WriteBatch.new 0)).2 = .ok ↔
        (WriteBatch.new 0).Fits ((WriteBatch.new 0).rep.length +
          (AppendOp.put 0 [1] [2]).record.encode.length)) ∧
      (((AppendOp.put 0 [1] [2]).apply (WriteBatch.new 0)).2 ≠ .ok →
        ((AppendOp.put 0 [1] [2]).apply (WriteBatch.new 0)).1 = WriteBatch.new 0) ∧
      (((AppendOp.put 0 [1] [2]).apply (WriteBatch.new 0)).2 = .ok →
        ((AppendOp.put 0 [1] [2]).apply (WriteBatch.new 0)).1.rep.drop kHeader =
          (WriteBatch.new 0).rep.drop kHeader ++ (AppendOp.put 0 [1] [2]).record.encode) ∧
      (¬ (AppendOp.put 0 [1] [2]).record.Small →
        ∀ rest, readRecordFromWriteBatch (AppendOp.put 0 [1] [2]).record.tag.toByte
          ((AppendOp.put 0 [1] [2]).record.body ++ rest) ≠ .ok ((AppendOp.put 0 [1] [2]).record, rest)) ∧
      (((AppendOp.put 0 [1] [2]).apply (WriteBatch.new 0)).2 = .ok →
        (AppendOp.put 0 [1] [2]).record.Small →
        countCounted ([] ++ [(AppendOp.put 0 [1] [2]).record]) < 2 ^ 31 →
        ((AppendOp.put 0 [1] [2]).apply (WriteBatch.new 0)).1.iterate recorder [] =
          (.ok, ([] ++ [(AppendOp.put 0 [1] [2]).record]).filterMap Record.call)) :=
  ⟨Holds.new .decoded 0, append_checks_no_length (Holds.new .decoded 0) (.put 0 [1] [2])⟩

end RocksBatch
