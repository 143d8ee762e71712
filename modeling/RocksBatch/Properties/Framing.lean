import RocksBatch.Batch.Layout
import RocksBatch.Properties.Decoding

set_option autoImplicit false

/-! # The records at the front of any payload

`Iterate` reads a payload record by record until it is used up or a record does not decode;
what it reads is `readRecords`. The format frames itself: a record is read from its own bytes
and from nothing after them.

* `readRecords_frames`: every payload is the bytes of the records read, followed by nothing
  (status OK) or by a record that does not decode (its status); and a payload that reads as
  records reads the same with any bytes after it.
* `readKeyFromWriteBatchEntry_agrees`: where a counted record written by an append begins,
  followed by any bytes, `ReadKeyFromWriteBatchEntry` reads the key that
  `ReadRecordFromWriteBatch` decodes there; `readKeyFromWriteBatchEntry_decodes`: wherever a
  counted record decodes, from any bytes, the key-only reader reads its key.
* `WriteBatch.iterate_runRecords`: for a handler that always continues, `Iterate` ends where the
  run of the records read ends, and returns the status of a callback that fails.
* `computeContentFlags_front`: on a batch whose flags are deferred, such as `WriteBatch(rep)`,
  `ComputeContentFlags` and the `Has*` queries answer for the records at the front of the
  payload, whatever `Iterate` returns; the header count and a corrupt tail are not looked at.
-/

namespace RocksBatch

/-! ## The key-only reader

`ReadKeyFromWriteBatchEntry` skips the tag byte and the column-family id and reads the key. -/

/-- The key after the tag byte and the column-family id of a counted record. -/
theorem readKeyFromWriteBatchEntry_cfBytes (tag : UInt8) (cf : UInt32) (key rest : Bytes)
    (hk : key.length < 2 ^ 32) :
    readKeyFromWriteBatchEntry (tag :: (Record.cfBytes cf ++ lengthPrefixed key ++ rest))
      (cf != 0) = some key := by
  by_cases h : cf = 0 <;>
  simp [readKeyFromWriteBatchEntry, Record.cfBytes, h, getLengthPrefixedSlice_lengthPrefixed _ _ hk]

/-- **The key-only reader agrees with the record reader**: where a counted record whose
fields fit their lengths begins, followed by any bytes, `ReadRecordFromWriteBatch` decodes
the record, and `ReadKeyFromWriteBatchEntry`, told whether the record has the
column-family tag, returns its first field: the key, or the begin key of a range
deletion. -/
theorem readKeyFromWriteBatchEntry_agrees {r : Record} (hc : r.IsCounted = true)
    (hs : r.Small) (rest : Bytes) :
    readRecordFromWriteBatch r.tag.toByte (r.body ++ rest) = .ok (r, rest) ∧
      readKeyFromWriteBatchEntry (r.encode ++ rest) (r.cf != 0) = r.fields.head? := by
  refine ⟨readRecordFromWriteBatch_encode r rest hs, ?_⟩
  have hk : ∀ k ∈ r.fields, k.length < 2 ^ 32 := hs
  cases r <;> simp only [Record.IsCounted, Bool.false_eq_true] at hc <;>
  simp only [Record.encode, Record.body, Record.cf, Record.fields, List.cons_append,
    List.append_assoc, List.head?_cons] at hk ⊢ <;>
  rw [← List.append_assoc] <;>
  exact readKeyFromWriteBatchEntry_cfBytes _ _ _ _ (hk _ (List.mem_cons_self _ _))

theorem readKeyFromWriteBatchEntry_agrees_put :
    (Record.put 7 [1] [2]).IsCounted = true ∧ (Record.put 7 [1] [2]).Small ∧
      readRecordFromWriteBatch (Record.put 7 [1] [2]).tag.toByte ((Record.put 7 [1] [2]).body ++ [5]) =
        .ok (.put 7 [1] [2], [5]) ∧
      readKeyFromWriteBatchEntry ((Record.put 7 [1] [2]).encode ++ [5]) ((Record.put 7 [1] [2]).cf != 0) =
        (Record.put 7 [1] [2]).fields.head? :=
  ⟨rfl, by decide, @readKeyFromWriteBatchEntry_agrees (.put 7 [1] [2]) rfl (by decide) [5]⟩

/-! Any bytes from which a counted record decodes, canonical or not. -/

/-- The tags whose records carry a column-family id: what a caller of
`ReadKeyFromWriteBatchEntry` passes as `cf_record`. -/
def ValueType.HasColumnFamily : ValueType → Bool
  | .kTypeColumnFamilyValue | .kTypeColumnFamilyDeletion | .kTypeColumnFamilySingleDeletion
  | .kTypeColumnFamilyRangeDeletion | .kTypeColumnFamilyMerge => true
  | _ => false

section KeyReader

variable {msg : String} {c : Bool} {input rest : Bytes} {r : Record}

theorem readKeyFromWriteBatchEntry_of_key {i₁ i₂ key : Bytes} {cf : UInt32} (tag : UInt8)
    (hcf : readColumnFamily msg c input = .ok (cf, i₁))
    (hk : getLengthPrefixedSlice i₁ = some (key, i₂)) :
    readKeyFromWriteBatchEntry (tag :: input) c = some key := by
  cases c <;> simp_all [readColumnFamily, readKeyFromWriteBatchEntry]

theorem readKeyRecord_key {mk : UInt32 → Bytes → Record} (tag : UInt8)
    (h : readKeyRecord msg mk c input = .ok (r, rest)) :
    ∃ cf key, r = mk cf key ∧ readKeyFromWriteBatchEntry (tag :: input) c = some key := by
  simp only [readKeyRecord, except_bind_eq_ok, orCorruption_eq_ok] at h
  obtain ⟨⟨cf, i₁⟩, h₁, ⟨k, i₂⟩, h₂, h₃⟩ := h
  cases h₃
  exact ⟨cf, k, rfl, readKeyFromWriteBatchEntry_of_key tag h₁ h₂⟩

theorem readKeyValueRecord_key {mk : UInt32 → Bytes → Bytes → Record} (tag : UInt8)
    (h : readKeyValueRecord msg mk c input = .ok (r, rest)) :
    ∃ cf key value, r = mk cf key value ∧
      readKeyFromWriteBatchEntry (tag :: input) c = some key := by
  simp only [readKeyValueRecord, except_bind_eq_ok, orCorruption_eq_ok] at h
  obtain ⟨⟨cf, i₁⟩, h₁, ⟨k, i₂⟩, h₂, ⟨v, i₃⟩, -, h₃⟩ := h
  cases h₃
  exact ⟨cf, k, v, rfl, readKeyFromWriteBatchEntry_of_key tag h₁ h₂⟩

theorem readBlobRecord_blob {mk : Bytes → Record} (h : readBlobRecord msg mk input = .ok (r, rest)) :
    ∃ blob, r = mk blob := by
  simp only [readBlobRecord, except_bind_eq_ok, orCorruption_eq_ok] at h
  obtain ⟨⟨b, i⟩, -, h⟩ := h
  cases h
  exact ⟨b, rfl⟩

end KeyReader

/-- **The key-only reader agrees with the record reader on any bytes**: wherever
`ReadRecordFromWriteBatch` decodes a counted record, from any bytes (a column-family tag with
the id `0` included), `ReadKeyFromWriteBatchEntry`, told whether the tag carries a
column-family id, reads the record's key (the begin key of a range deletion). -/
theorem readKeyFromWriteBatchEntry_decodes {tag : UInt8} {tail rest : Bytes} {r : Record}
    (hr : readRecordFromWriteBatch tag tail = .ok (r, rest)) (hc : r.IsCounted = true) :
    readKeyFromWriteBatchEntry (tag :: tail) ((ValueType.ofByte tag).any ValueType.HasColumnFamily) =
      r.fields.head? := by
  unfold readRecordFromWriteBatch at hr
  rcases ht : ValueType.ofByte tag with _ | t
  · simp [ht] at hr
  rw [ht] at hr
  cases t with
  | kTypeDeletion | kTypeColumnFamilyDeletion | kTypeSingleDeletion
  | kTypeColumnFamilySingleDeletion =>
      obtain ⟨cf, k, rfl, hk⟩ := readKeyRecord_key tag hr
      exact hk
  | kTypeValue | kTypeColumnFamilyValue | kTypeMerge | kTypeColumnFamilyMerge
  | kTypeRangeDeletion | kTypeColumnFamilyRangeDeletion =>
      obtain ⟨cf, k, v, rfl, hk⟩ := readKeyValueRecord_key tag hr
      exact hk
  | kTypeLogData | kTypeEndPrepareXID | kTypeCommitXID | kTypeRollbackXID =>
      obtain ⟨b, rfl⟩ := readBlobRecord_blob hr
      cases hc
  | kTypeNoop | kTypeBeginPrepareXID =>
      cases hr
      cases hc

/-- A `Put` under the column-family tag with the id `0`, which no append writes. -/
theorem readKeyFromWriteBatchEntry_decodes_cfZero :
    readRecordFromWriteBatch ValueType.kTypeColumnFamilyValue.toByte [0, 1, 7, 1, 8] =
        .ok (.put 0 [7] [8], []) ∧ (Record.put 0 [7] [8]).IsCounted = true ∧
      readKeyFromWriteBatchEntry (ValueType.kTypeColumnFamilyValue.toByte :: [0, 1, 7, 1, 8])
        ((ValueType.ofByte ValueType.kTypeColumnFamilyValue.toByte).any ValueType.HasColumnFamily) =
        (Record.put 0 [7] [8]).fields.head? :=
  ⟨rfl, rfl, readKeyFromWriteBatchEntry_decodes rfl rfl⟩

/-! ## Framing -/

/-- **A payload that reads as records reads the same with any bytes after it**: its records
come first, then those of the bytes after it, with their status. -/
theorem readRecords_append {p : Bytes} {rs : List Record} (hp : Parses p rs) (q : Bytes) :
    readRecords (p ++ q) = (rs ++ (readRecords q).1, (readRecords q).2) := by
  induction hp with
  | nil => rfl
  | cons hr _ ih =>
      rw [List.cons_append, readRecords_cons_ok (readRecordFromWriteBatch_append hr q), ih]
      rfl

/-- Every payload is the bytes of the records at its front followed by nothing, when the
reading ends with OK, or by a record that does not decode, with the status of the reading. -/
theorem readRecords_partition (p : Bytes) :
    ∃ p₁ p₂, p = p₁ ++ p₂ ∧ Parses p₁ (readRecords p).1 ∧
      (p₂ = [] ∧ (readRecords p).2 = .ok ∨
        ∃ tag tail, p₂ = tag :: tail ∧ readRecordFromWriteBatch tag tail = .error (readRecords p).2) :=
  match p with
  | [] => ⟨[], [], rfl, by simpa using Parses.nil, .inl ⟨rfl, by simp⟩⟩
  | tag :: tail => by
      rcases hr : readRecordFromWriteBatch tag tail with s | ⟨r, rest⟩
      · rw [readRecords_cons_error hr]
        exact ⟨[], tag :: tail, rfl, .nil, .inr ⟨tag, tail, rfl, hr⟩⟩
      · have : rest.length < (tag :: tail).length :=
          Nat.lt_succ_of_le (readRecordFromWriteBatch_length_le hr)
        obtain ⟨q₁, q₂, hq, hp, hend⟩ := readRecords_partition rest
        obtain ⟨body, rfl, hb⟩ := readRecordFromWriteBatch_eq_ok_iff.mp hr
        rw [readRecords_cons_ok hr]
        refine ⟨tag :: (body ++ q₁), q₂, by simp [hq], ?_, hend⟩
        exact .cons (readRecordFromWriteBatch_eq_ok_iff.mpr ⟨body, rfl, hb⟩) hp
termination_by p.length

/-- The records read at the front of a payload fit their length prefixes. -/
theorem small_of_mem_readRecords {p : Bytes} {r : Record} (hr : r ∈ (readRecords p).1) :
    r.Small :=
  let ⟨_, _, _, hp, _⟩ := readRecords_partition p
  hp.small r hr

/-- **The payload format frames itself.** Every payload splits into the bytes of the records
`Iterate` reads at its front and a rest that is empty, when the reading ends with OK, or
starts with a record that does not decode, whose status the reading ends with. A payload that
reads as records reads the same with any bytes after it: its records, then those of the
bytes after it, with their status. -/
theorem readRecords_frames :
    (∀ p : Bytes, ∃ p₁ p₂, p = p₁ ++ p₂ ∧ Parses p₁ (readRecords p).1 ∧
      (p₂ = [] ∧ (readRecords p).2 = .ok ∨
        ∃ tag tail, p₂ = tag :: tail ∧
          readRecordFromWriteBatch tag tail = .error (readRecords p).2)) ∧
    ∀ (p q : Bytes) (rs : List Record), Parses p rs →
      readRecords (p ++ q) = (rs ++ (readRecords q).1, (readRecords q).2) :=
  ⟨readRecords_partition, fun _ q _ hp => readRecords_append hp q⟩

/-! ## The loop runs the records read -/

namespace Handler

variable {σ : Type} (h : Handler σ) (hc : ∀ st, h.continue st = (true, st))
include hc

/-- A turn of the loop of `Iterate` at a record whose callback fails: the loop stops there. -/
theorem iterateLoop_cons_fail {tag : UInt8} {tail rest : Bytes} {r : Record} {found : Nat}
    {st : σ} (hr : readRecordFromWriteBatch tag tail = .ok (r, rest))
    (hf : (h.dispatch r st).1 ≠ .ok) :
    h.iterateLoop (tag :: tail) found st =
      ((h.dispatch r st).1, found + (h.dispatch r st).2.1, (h.dispatch r st).2.2) := by
  rw [iterateLoop, hc]
  dsimp only
  split <;> rename_i hr' <;> rw [hr] at hr' <;> cases hr'
  rcases hd : h.dispatch r st with ⟨s, n, st'⟩
  rw [hd] at hf
  cases s <;> first | rfl | exact absurd rfl hf

/-- **The loop of `Iterate` is the run of the records read**, for a handler that always
continues: it ends where the run ends, and when a callback fails, with its status. -/
theorem iterateLoop_runRecords : ∀ (p : Bytes) (found : Nat) (st : σ),
    (h.iterateLoop p found st).2.2 = (h.runRecords (readRecords p).1 found st).2.2 ∧
      ((h.runRecords (readRecords p).1 found st).1 ≠ .ok →
        (h.iterateLoop p found st).1 = (h.runRecords (readRecords p).1 found st).1)
  | [], _, _ => by simp [iterateLoop, runRecords]
  | tag :: tail, found, st => by
      rcases hr : readRecordFromWriteBatch tag tail with s | ⟨r, rest⟩
      · rw [h.iterateLoop_cons_error (hc st) hr, readRecords_cons_error hr]
        exact ⟨rfl, fun hne => absurd rfl hne⟩
      have : rest.length < (tag :: tail).length :=
        Nat.lt_succ_of_le (readRecordFromWriteBatch_length_le hr)
      rw [readRecords_cons_ok hr]
      simp only [Prod.map_fst, id, runRecords, hc]
      by_cases hf : (h.dispatch r st).1 = .ok
      · rcases hd : h.dispatch r st with ⟨s, n, st'⟩
        rw [hd] at hf
        obtain rfl : s = .ok := hf
        rw [h.iterateLoop_cons_ok (hc st) hr hd]
        exact iterateLoop_runRecords rest (found + n) st'
      · rw [h.iterateLoop_cons_fail hc hr hf]
        rcases hd : h.dispatch r st with ⟨s, n, st'⟩
        rw [hd] at hf
        cases s <;> first | exact absurd rfl hf | exact ⟨rfl, fun _ => rfl⟩
termination_by p => p.length

/-- A run that fails stops at its first failing callback. -/
theorem runRecords_split : ∀ (rs : List Record) (found : Nat) (st : σ),
    (h.runRecords rs found st).1 ≠ .ok →
      ∃ pre r post n st₁, rs = pre ++ r :: post ∧ h.runRecords pre found st = (.ok, n, st₁) ∧
        (h.dispatch r st₁).1 ≠ .ok ∧
        h.runRecords rs found st =
          ((h.dispatch r st₁).1, n + (h.dispatch r st₁).2.1, (h.dispatch r st₁).2.2)
  | [], _, _, hf => absurd rfl hf
  | r :: rs, found, st, hf => by
      rw [runRecords, hc] at hf ⊢
      dsimp only at hf ⊢
      rcases hd : h.dispatch r st with ⟨s, n, st'⟩
      rw [hd] at hf
      by_cases hs : s = .ok
      · subst hs
        obtain ⟨pre, r', post, m, st₁, rfl, hpre, hr', heq⟩ := runRecords_split rs (found + n) st' hf
        refine ⟨r :: pre, r', post, m, st₁, rfl, ?_, hr', heq⟩
        simp only [runRecords, hc, hd, hpre]
      · refine ⟨[], r, rs, found, st, rfl, rfl, by rw [hd]; exact hs, ?_⟩
        rw [hd]
        cases s <;> first | rfl | exact absurd rfl hs

end Handler

/-- **`Iterate` ends where the run of the records read ends**, for a handler that always
continues, and returns the status of a callback that fails. -/
theorem WriteBatch.iterate_runRecords {σ : Type} {h : Handler σ}
    (hc : ∀ st, h.continue st = (true, st)) (b : WriteBatch) (st : σ) :
    (b.iterate h st).2 = (h.runRecords (readRecords (b.rep.drop kHeader)).1 0 st).2.2 ∧
      ((h.runRecords (readRecords (b.rep.drop kHeader)).1 0 st).1 ≠ .ok →
        (b.iterate h st).1 = (h.runRecords (readRecords (b.rep.drop kHeader)).1 0 st).1) := by
  by_cases hl : b.rep.length < kHeader
  · rw [List.drop_eq_nil_of_le hl.le, readRecords_nil]
    exact ⟨by simp [WriteBatch.iterate, hl, Handler.runRecords], fun hne => absurd rfl hne⟩
  have hloop := h.iterateLoop_runRecords hc (b.rep.drop kHeader) 0 st
  rcases hq : h.iterateLoop (b.rep.drop kHeader) 0 st with ⟨s, n, st'⟩
  rw [hq] at hloop
  rw [WriteBatch.iterate_of_loop (Nat.le_of_not_lt hl) hq]
  refine ⟨hloop.1, fun hne => ?_⟩
  have hs := hloop.2 hne
  rw [← hs] at hne ⊢
  exact if_neg hne

/-! ## Content flags of any bytes -/

/-- The classifier's flags after `Iterate` of any batch, whatever `Iterate` returns: those of
the records at the front of the payload. -/
theorem iterate_classifier_readRecords (b : WriteBatch) :
    (b.iterate batchContentClassifier 0).2 = classify (readRecords (b.rep.drop kHeader)).1 := by
  by_cases hl : kHeader ≤ b.rep.length
  · have hloop := batchContentClassifier.iterateLoop_readRecords (fun _ => rfl)
      (fun x f => by rw [batchContentClassifier_dispatch]) (b.rep.drop kHeader) 0 0
    rw [WriteBatch.iterate_of_loop hl hloop, batchContentClassifier_runRecords]
    split <;> simp [batchContentClassifier]
  · rw [List.drop_eq_nil_of_le (by omega), readRecords_nil]
    simp [WriteBatch.iterate, Nat.lt_of_not_le hl]

/-- **Deferred content flags are those of the records at the front of the payload.** On a
batch whose content flags have `DEFERRED`, as `WriteBatch(rep)` and `SetContents` leave them,
`ComputeContentFlags` answers the flags of the complete records at the front of the payload
and stores them; each `Has*` query answers whether one of those records is of its kind. The
status of the classifier's `Iterate` is not looked at: a corrupt record and what follows it,
and a header count that disagrees, change nothing. -/
theorem computeContentFlags_front (b : WriteBatch)
    (hd : b.contentFlags &&& ContentFlags.deferred ≠ 0) :
    b.computeContentFlags = (classify (readRecords (b.rep.drop kHeader)).1,
      { b with contentFlags := classify (readRecords (b.rep.drop kHeader)).1 }) ∧
    ∀ flag ∈ ContentFlags.kinds,
      ((b.hasFlag flag).1 = true ↔ ∃ r ∈ (readRecords (b.rep.drop kHeader)).1, r.flag = flag) := by
  have hc : b.computeContentFlags = (classify (readRecords (b.rep.drop kHeader)).1,
      { b with contentFlags := classify (readRecords (b.rep.drop kHeader)).1 }) := by
    rw [WriteBatch.computeContentFlags, if_pos hd, iterate_classifier_readRecords]
  refine ⟨hc, fun flag hk => ?_⟩
  have hpos : flag ≠ 0 := by
    simp only [ContentFlags.kinds, List.mem_cons, List.not_mem_nil, or_false] at hk
    rcases hk with rfl | rfl | rfl | rfl | rfl | rfl | rfl | rfl | rfl <;> decide
  rw [WriteBatch.hasFlag, hc, classify_and_kind hk]
  split <;> simp [*]

/-- Twelve header bytes, a `Put(0, [1], [2])`, and a record with an unknown tag. -/
def putThenGarbage : Bytes :=
  List.replicate 8 0 ++ [5, 0, 0, 0] ++ [ValueType.kTypeValue.toByte, 1, 1, 1, 2] ++ [0xFF]

theorem computeContentFlags_front_putThenGarbage :
    (WriteBatch.ofRep putThenGarbage).contentFlags &&& ContentFlags.deferred ≠ 0 ∧
    (WriteBatch.ofRep putThenGarbage).computeContentFlags =
      (classify (readRecords ((WriteBatch.ofRep putThenGarbage).rep.drop kHeader)).1,
        { WriteBatch.ofRep putThenGarbage with
          contentFlags := classify (readRecords ((WriteBatch.ofRep putThenGarbage).rep.drop kHeader)).1 }) ∧
    ∀ flag ∈ ContentFlags.kinds,
      ((WriteBatch.ofRep putThenGarbage |>.hasFlag flag).1 = true ↔
        ∃ r ∈ (readRecords ((WriteBatch.ofRep putThenGarbage).rep.drop kHeader)).1, r.flag = flag) :=
  ⟨by decide, computeContentFlags_front _ (by decide)⟩

end RocksBatch
