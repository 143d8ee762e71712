import RocksBatch.Batch.Reachable

set_option autoImplicit false

/-! # What a batch holds

The invariant of a batch is stated over the records it holds, a list kept beside the
batch: the representation is a header with their count and a payload that reads as them,
every save point marks a prefix of the payload with the count and the flags of the records
in it, and the content flags are theirs.

A payload "reads as" its records in one of two ways (`Reading`). For the batches built
from a fresh batch the payload is the encodings of the records appended, one after
another, whatever the length of their fields (`Reading.encoded`). For batches built also
from bytes, `WriteBatch(rep)`, it is what the decoder finds (`Reading.decoded`); only
records whose fields fit their 32-bit length prefixes are then appended, and the content
flags may be left `DEFERRED`. One proof covers both.

The invariant is stated over a base (`HoldsOver`): a payload prefix and the save points
under it that a run leaves alone. With an empty base it is the invariant of a batch
(`Holds`); with the base a save point just set it says what `RollbackToSavePoint` finds.
-/

namespace RocksBatch

/-! ## The `DEFERRED` bit -/

theorem and_deferred_ne_zero_iff (f : Nat) : f &&& ContentFlags.deferred ≠ 0 ↔ f % 2 = 1 := by
  simp [ContentFlags.deferred]

@[simp] theorem Record.flag_mod_two (r : Record) : r.flag % 2 = 0 := by
  cases r <;> simp only [Record.flag] <;> decide

theorem or_mod_two_eq_zero {a b : Nat} (ha : a % 2 = 0) (hb : b % 2 = 0) :
    (a ||| b) % 2 = 0 := by
  have h := Nat.testBit_or a b 0
  rw [Nat.testBit_zero, Nat.testBit_zero, Nat.testBit_zero, ha, hb] at h
  have : ¬ (a ||| b) % 2 = 1 := by simpa using h
  omega

theorem or_mod_two_eq_one {a : Nat} (b : Nat) (ha : a % 2 = 1) : (a ||| b) % 2 = 1 := by
  have h := Nat.testBit_or a b 0
  rw [Nat.testBit_zero, Nat.testBit_zero, ha] at h
  simpa using h

theorem or_ne_zero_of_right (a : Nat) {b : Nat} (hb : b ≠ 0) : a ||| b ≠ 0 := by
  obtain ⟨i, hi⟩ := Nat.ne_zero_implies_bit_true hb
  intro h
  simpa [hi] using congrArg (Nat.testBit · i) h

@[simp] theorem classify_mod_two (rs : List Record) : classify rs % 2 = 0 := by
  induction rs with
  | nil => rfl
  | cons r rs ih => exact or_mod_two_eq_zero (Record.flag_mod_two r) ih

/-! ## Readings -/

/-- How the records of a batch are read off its payload. -/
inductive Reading
  /-- The encodings of the records, one after another; any record is appended. -/
  | encoded
  /-- What the decoder reads; only records whose fields fit their length prefixes are
  appended, and the content flags may be `DEFERRED`. -/
  | decoded
  deriving DecidableEq, Repr

namespace Reading

/-- The payload `p` reads as the records `rs`. -/
def Reads : Reading → Bytes → List Record → Prop
  | encoded, p, rs => p = encodeRecords rs
  | decoded, p, rs => Parses p rs

/-- The records that may be appended. -/
def Admits : Reading → Record → Prop
  | encoded, _ => True
  | decoded, r => r.Small

/-- The content flags `f` are those of `rs`, or, when they may be deferred, have the
`DEFERRED` bit. -/
def Flags : Reading → Nat → List Record → Prop
  | encoded, f, rs => f = classify rs
  | decoded, f, rs => f % 2 = 1 ∨ f = classify rs

variable {ρ : Reading} {p q : Bytes} {rs ss : List Record} {f g : Nat}

theorem reads_nil (ρ : Reading) : ρ.Reads [] [] := by
  cases ρ
  · rfl
  · exact .nil

theorem Reads.append (hp : ρ.Reads p rs) (hq : ρ.Reads q ss) : ρ.Reads (p ++ q) (rs ++ ss) := by
  cases ρ
  · simp only [Reads] at hp hq ⊢
    rw [hp, hq, encodeRecords_append]
  · exact Parses.append hp hq

theorem admits_of_small {r : Record} (hr : r.Small) : ρ.Admits r := by
  cases ρ
  · trivial
  · exact hr

theorem reads_encode {r : Record} (hr : ρ.Admits r) : ρ.Reads r.encode [r] := by
  cases ρ
  · simp [Reads, encodeRecords]
  · simpa [encodeRecords] using @parses_encodeRecords [r] (by simpa using hr)

theorem Reads.eq_nil (h : ρ.Reads [] ss) : ss = [] := by
  cases ρ
  · cases ss with
    | nil => rfl
    | cons r _ => simp [Reads, Record.encode] at h
  · exact Parses.eq_nil h

theorem Record.eq_noop {r : Record} (h : r.tag.toByte = ValueType.kTypeNoop.toByte) :
    r = .noop := by
  have ht : r.tag = .kTypeNoop := by
    simpa using congrArg ValueType.ofByte h
  cases r <;> simp only [Record.tag, Record.cfTag] at ht <;> (try split at ht) <;> cases ht
  rfl

/-- A payload whose first byte is the `Noop` tag starts with the `Noop` record. -/
theorem Reads.noop (h : ρ.Reads (ValueType.kTypeNoop.toByte :: p) rs) :
    ∃ rs', rs = .noop :: rs' ∧ ρ.Reads p rs' := by
  cases ρ
  · cases rs with
    | nil => simp [Reads] at h
    | cons r rs =>
        simp only [Reads, encodeRecords_cons, Record.encode, List.cons_append,
          List.cons.injEq] at h
        obtain rfl := Record.eq_noop h.1.symm
        exact ⟨rs, rfl, by simpa [Record.body] using h.2⟩
  · cases h with
    | cons hr hp =>
        simp [readRecordFromWriteBatch] at hr
        obtain ⟨rfl, rfl⟩ := hr
        exact ⟨_, rfl, hp⟩

theorem Reads.beginPrepare (h : ρ.Reads p rs) :
    ρ.Reads (ValueType.kTypeBeginPrepareXID.toByte :: p) (.beginPrepare :: rs) :=
  (@reads_encode ρ .beginPrepare (admits_of_small (by simp [Record.Small, Record.fields]))).append h

theorem flags_classify (ρ : Reading) (rs : List Record) : ρ.Flags (classify rs) rs := by
  cases ρ
  · rfl
  · exact .inr rfl

theorem Flags.or (hf : ρ.Flags f rs) (hg : ρ.Flags g ss) :
    ρ.Flags (f ||| g) (rs ++ ss) := by
  cases ρ
  · simp only [Flags] at hf hg ⊢
    rw [hf, hg, classify_append]
  · simp only [Flags] at hf hg ⊢
    rcases hf with hf | rfl
    · exact .inl (or_mod_two_eq_one g hf)
    rcases hg with hg | rfl
    · exact .inl (by rw [Nat.or_comm]; exact or_mod_two_eq_one _ hg)
    exact .inr (classify_append rs ss).symm

/-- The flags `MarkEndPrepare` sets when the leading `Noop` becomes the begin marker. -/
theorem Flags.seal (hf : ρ.Flags f (.noop :: rs)) (xid : Bytes) :
    ρ.Flags (f ||| ContentFlags.hasEndPrepare ||| ContentFlags.hasBeginPrepare)
      (.beginPrepare :: (rs ++ [.endPrepare xid])) := by
  have hc : classify (.noop :: rs) ||| ContentFlags.hasEndPrepare ||| ContentFlags.hasBeginPrepare =
      classify (.beginPrepare :: (rs ++ [.endPrepare xid])) := by
    simp only [classify_cons, classify_append, classify_nil, Record.flag, Nat.zero_or, Nat.or_zero]
    ac_rfl
  cases ρ
  · simp only [Flags] at hf ⊢
    rw [hf, hc]
  · simp only [Flags] at hf ⊢
    rcases hf with hf | rfl
    · exact .inl (by rw [Nat.or_assoc]; exact or_mod_two_eq_one _ hf)
    · exact .inr hc

/-- Flags without `DEFERRED` are those of the records. -/
theorem Flags.eq_classify (hf : ρ.Flags f rs) (hd : f % 2 = 0) : f = classify rs := by
  cases ρ
  · exact hf
  · exact hf.resolve_left (by omega)

/-- Flags read exactly off the records are never deferred. -/
theorem Flags.mod_two (hf : Reading.encoded.Flags f rs) : f % 2 = 0 := by
  simp only [Flags] at hf
  simp [hf]

end Reading

/-! ## Save points over a base -/

/-- The save point taken on the payload `p` reading as `rs`, with content flags `f`. -/
def savePointOf (p : Bytes) (rs : List Record) (f : Nat) : SavePoint :=
  ⟨kHeader + p.length, toInt32 (countCounted rs).toUInt32, f⟩

/-- `Above ρ p₀ rs₀ sps p rs`: the payload `p`, reading as `rs`, starts with the base
payload `p₀` reading as `rs₀`, and the save points `sps` (top first) mark prefixes of `p`
at or past it. -/
inductive Above (ρ : Reading) (p₀ : Bytes) (rs₀ : List Record) :
    List SavePoint → Bytes → List Record → Prop
  | base {q : Bytes} {ss : List Record} : ρ.Reads q ss → Above ρ p₀ rs₀ [] (p₀ ++ q) (rs₀ ++ ss)
  | push {sps : List SavePoint} {p q : Bytes} {rs ss : List Record} {f : Nat} :
      Above ρ p₀ rs₀ sps p rs → ρ.Flags f rs → ρ.Reads q ss →
      Above ρ p₀ rs₀ (savePointOf p rs f :: sps) (p ++ q) (rs ++ ss)

namespace Above

variable {ρ : Reading} {p₀ p q : Bytes} {rs₀ rs ss : List Record} {sps : List SavePoint}

theorem reads (h0 : ρ.Reads p₀ rs₀) (h : Above ρ p₀ rs₀ sps p rs) : ρ.Reads p rs := by
  induction h with
  | base hq => exact h0.append hq
  | push _ _ hq ih => exact ih.append hq

theorem append (h : Above ρ p₀ rs₀ sps p rs) (hq : ρ.Reads q ss) :
    Above ρ p₀ rs₀ sps (p ++ q) (rs ++ ss) := by
  cases h with
  | base hq' => simpa using Above.base (hq'.append hq)
  | push h hf hq' => simpa using Above.push h hf (hq'.append hq)

theorem of_reads (h : ρ.Reads p rs) : Above ρ [] [] [] p rs := by
  simpa using @Above.base ρ [] [] p rs h

theorem setSavePoint (h : Above ρ p₀ rs₀ sps p rs) {f : Nat} (hf : ρ.Flags f rs) :
    Above ρ p₀ rs₀ (savePointOf p rs f :: sps) p rs := by
  simpa using Above.push h hf (Reading.reads_nil ρ)

end Above

/-! ## The invariant -/

/-- **The invariant of a batch over a base**: the batch holds the records `rs`; its
representation is the header with sequence `seq` and their count, and a payload reading as
them that starts with `p₀` reading as `rs₀`; its save points are those `Above` the base,
then `base`; its content flags are those of `rs`. -/
def HoldsOver (ρ : Reading) (seq : UInt64) (p₀ : Bytes) (rs₀ : List Record)
    (base : List SavePoint) (b : WriteBatch) (rs : List Record) : Prop :=
  ρ.Reads p₀ rs₀ ∧ ∃ p new, b.rep = headerRep seq (countCounted rs).toUInt32 p ∧
    b.savePoints = new ++ base ∧ Above ρ p₀ rs₀ new p rs ∧ ρ.Flags b.contentFlags rs

/-- **The invariant of a batch** holding the records `rs`: over the empty base. -/
def Holds (ρ : Reading) (b : WriteBatch) (rs : List Record) : Prop :=
  ∃ seq, HoldsOver ρ seq [] [] [] b rs

theorem countCounted_snoc_toUInt32 (rs : List Record) (r : Record) :
    (countCounted (rs ++ [r])).toUInt32 =
      if r.IsCounted then (countCounted rs).toUInt32 + 1 else (countCounted rs).toUInt32 := by
  rw [countCounted_append, countCounted_cons, countCounted_nil]
  split <;> simp [toUInt32_add_one]

namespace HoldsOver

open WriteBatch WriteBatchInternal

variable {ρ : Reading} {seq : UInt64} {p₀ : Bytes} {rs₀ : List Record}
  {base : List SavePoint} {b : WriteBatch} {rs : List Record}

theorem payload_eq {p : Bytes} (hb : b.rep = headerRep seq (countCounted rs).toUInt32 p) :
    b.rep.drop kHeader = p := by
  rw [hb, drop_kHeader_headerRep]

/-- A record written after the payload. -/
theorem pushRecord (h : HoldsOver ρ seq p₀ rs₀ base b rs) {r : Record} (hr : ρ.Admits r) :
    HoldsOver ρ seq p₀ rs₀ base
      (b.pushRecord seq (countCounted rs).toUInt32 (b.rep.drop kHeader) r) (rs ++ [r]) := by
  obtain ⟨h0, p, new, hb, hs, ha, hf⟩ := h
  rw [payload_eq hb]
  exact ⟨h0, p ++ r.encode, new, by simp [WriteBatch.pushRecord, countCounted_snoc_toUInt32], hs,
    ha.append (Reading.reads_encode hr), hf.or (by simpa using Reading.flags_classify ρ [r])⟩

theorem appendRecord (h : HoldsOver ρ seq p₀ rs₀ base b rs) {r : Record} (hr : ρ.Admits r) :
    ∃ rs', rs <+: rs' ∧ HoldsOver ρ seq p₀ rs₀ base
      (b.appendRecord seq (countCounted rs).toUInt32 (b.rep.drop kHeader) r).1 rs' := by
  unfold WriteBatch.appendRecord
  split
  · exact ⟨_, List.prefix_append _ _, h.pushRecord hr⟩
  · exact ⟨rs, List.prefix_refl _, h⟩

theorem rep_eq (h : HoldsOver ρ seq p₀ rs₀ base b rs) :
    b.rep = headerRep seq (countCounted rs).toUInt32 (b.rep.drop kHeader) := by
  obtain ⟨-, p, -, hb, -⟩ := h
  rw [payload_eq hb, hb]

theorem reads (h : HoldsOver ρ seq p₀ rs₀ base b rs) : ρ.Reads (b.rep.drop kHeader) rs := by
  obtain ⟨h0, p, _, hb, -, ha, -⟩ := h
  rw [payload_eq hb]
  exact ha.reads h0

theorem markWalTerminationPoint (h : HoldsOver ρ seq p₀ rs₀ base b rs) :
    HoldsOver ρ seq p₀ rs₀ base b.markWalTerminationPoint rs := h

theorem setSavePoint (h : HoldsOver ρ seq p₀ rs₀ base b rs) :
    HoldsOver ρ seq p₀ rs₀ base b.setSavePoint rs := by
  obtain ⟨h0, p, new, hb, hs, ha, hf⟩ := h
  have hsp : (⟨b.getDataSize, b.count, b.contentFlags⟩ : SavePoint) =
      savePointOf p rs b.contentFlags := by
    simp [savePointOf, getDataSize, hb, b.count_headerRep seq _ p hb]
  exact ⟨h0, p, _ :: new, hb, by simp [WriteBatch.setSavePoint, hsp, hs], ha.setSavePoint hf, hf⟩

/-- `ComputeContentFlags` answers the flags of the records, classifying them when they are
deferred, and stores them. -/
theorem computeContentFlags_eq (h : HoldsOver ρ seq p₀ rs₀ base b rs) :
    b.computeContentFlags = (classify rs, { b with contentFlags := classify rs }) := by
  obtain ⟨h0, p, _, hb, -, ha, hf⟩ := h
  unfold computeContentFlags
  split
  · rename_i hd
    rw [and_deferred_ne_zero_iff] at hd
    cases ρ
    · simp [hf.mod_two] at hd
    · rw [b.iterate_classifier_snd hb (ha.reads h0)]
  · rename_i hd
    rw [and_deferred_ne_zero_iff] at hd
    obtain ⟨sp, wt, f, mb, rep⟩ := b
    cases hf.eq_classify (Nat.mod_two_ne_one.mp hd)
    rfl

/-- The `Has*` queries store the flags of the records. -/
theorem hasFlag (h : HoldsOver ρ seq p₀ rs₀ base b rs) (flag : Nat) :
    HoldsOver ρ seq p₀ rs₀ base (b.hasFlag flag).2 rs := by
  simp only [WriteBatch.hasFlag, h.computeContentFlags_eq]
  obtain ⟨h0, p, new, hb, hs, ha, -⟩ := h
  exact ⟨h0, p, new, hb, hs, ha, Reading.flags_classify ρ rs⟩

/-- `RollbackToSavePoint` of a save point above the base: back to the prefix it marks. -/
theorem rollbackToSavePoint (h : HoldsOver ρ seq p₀ rs₀ base b rs)
    (hb : base = [] ∨ base.length < b.savePoints.length) :
    ∃ rs', rs' <+: rs ∧ HoldsOver ρ seq p₀ rs₀ base b.rollbackToSavePoint.1 rs' ∧
      (∀ sp rest, b.savePoints = sp :: rest → b.rollbackToSavePoint.1.rep.length = sp.size) ∧
      b.rollbackToSavePoint.1.savePoints = b.savePoints.tail := by
  obtain ⟨h0, p, new, hrep, hs, ha, hf⟩ := h
  cases ha with
  | base hq =>
      obtain rfl | hlt := hb
      · simp only [List.append_nil] at hs
        simp only [WriteBatch.rollbackToSavePoint, hs]
        exact ⟨_, List.prefix_refl _, ⟨h0, _, [], hrep, by simp [hs], .base hq, hf⟩, by simp, rfl⟩
      · simp [hs] at hlt
  | @push new p q rs1 ss f ha hf1 hq =>
      simp only [WriteBatch.rollbackToSavePoint, hs, List.cons_append, List.cons.injEq]
      by_cases hq0 : q = []
      · subst hq0
        obtain rfl := hq.eq_nil
        simp only [savePointOf, hrep, length_headerRep, List.append_nil, if_true]
        exact ⟨_, List.prefix_refl _, ⟨h0, _, new, by simp [hrep], rfl, ha, by simpa using hf⟩,
          by simp, rfl⟩
      · have hlen : kHeader + p.length ≠ b.rep.length := by
          simp [hrep, List.length_append, hq0]
        simp only [savePointOf, hlen, if_false, show kHeader + p.length ≠ 0 by simp [kHeader]]
        refine ⟨rs1, List.prefix_append _ _, ⟨h0, p, new, ?_, rfl, ha, hf1⟩, ?_, rfl⟩
        · rw [setCount_rep _ seq (countCounted (rs1 ++ ss)).toUInt32 p
            (by simp only [hrep]; exact resize_headerRep _ _ _ _), ofInt32_toInt32]
        · rintro _ _ ⟨rfl, -⟩
          rw [setCount_rep _ seq (countCounted (rs1 ++ ss)).toUInt32 p
            (by simp only [hrep]; exact resize_headerRep _ _ _ _)]
          simp [savePointOf, kHeader]

/-- `PopSavePoint` of a save point above the base: the stack loses its top. -/
theorem popSavePoint (h : HoldsOver ρ seq p₀ rs₀ base b rs)
    (hb : base = [] ∨ base.length < b.savePoints.length) :
    HoldsOver ρ seq p₀ rs₀ base b.popSavePoint.1 rs := by
  obtain ⟨h0, p, new, hrep, hs, ha, hf⟩ := h
  cases ha with
  | base hq =>
      obtain rfl | hlt := hb
      · simp only [List.append_nil] at hs
        simp only [WriteBatch.popSavePoint, hs]
        exact ⟨h0, _, [], hrep, by simp [hs], .base hq, hf⟩
      · simp [hs] at hlt
  | push ha _ hq =>
      simp only [WriteBatch.popSavePoint, hs, List.cons_append]
      exact ⟨h0, _, _, hrep, rfl, ha.append hq, hf⟩

theorem insertNoop (h : HoldsOver ρ seq p₀ rs₀ base b rs) :
    HoldsOver ρ seq p₀ rs₀ base (WriteBatchInternal.insertNoop b).1 (rs ++ [.noop]) := by
  rw [insertNoop_eq h.rep_eq]
  exact h.pushRecord (Reading.admits_of_small (by simp [Record.Small, Record.fields]))

theorem markCommit (h : HoldsOver ρ seq p₀ rs₀ base b rs) {xid : Bytes}
    (hr : ρ.Admits (.commit xid)) :
    HoldsOver ρ seq p₀ rs₀ base (WriteBatchInternal.markCommit b xid).1 (rs ++ [.commit xid]) := by
  rw [markCommit_eq h.rep_eq]
  exact h.pushRecord hr

theorem markRollback (h : HoldsOver ρ seq p₀ rs₀ base b rs) {xid : Bytes}
    (hr : ρ.Admits (.rollback xid)) :
    HoldsOver ρ seq p₀ rs₀ base (WriteBatchInternal.markRollback b xid).1
      (rs ++ [.rollback xid]) := by
  rw [markRollback_eq h.rep_eq]
  exact h.pushRecord hr

/-- `MarkEndPrepare` on a batch whose first record is a `Noop`: the `Noop` becomes the begin
marker, the end marker follows the records, and the save points are gone. -/
theorem markEndPrepare (h : HoldsOver ρ seq [] [] [] b rs)
    (he : b.rep[kHeader]? = some ValueType.kTypeNoop.toByte) {xid : Bytes}
    (hr : ρ.Admits (.endPrepare xid)) :
    ∃ rs', rs = .noop :: rs' ∧ HoldsOver ρ seq [] [] []
      (WriteBatchInternal.markEndPrepare b xid).1 (.beginPrepare :: (rs' ++ [.endPrepare xid])) := by
  obtain ⟨h0, p, new, hrep, hs, ha, hf⟩ := h
  rw [hrep, getElem?_kHeader_headerRep] at he
  obtain ⟨p', rfl⟩ : ∃ p', p = ValueType.kTypeNoop.toByte :: p' := by
    cases p with
    | nil => simp at he
    | cons x p' => simp at he; exact ⟨p', by rw [he]⟩
  obtain ⟨rs', rfl, hp'⟩ := (ha.reads h0).noop
  refine ⟨rs', rfl, h0, ValueType.kTypeBeginPrepareXID.toByte :: (p' ++ (Record.endPrepare xid).encode),
    [], ?_, rfl, .of_reads (hp'.append (Reading.reads_encode hr)).beginPrepare, hf.seal xid⟩
  rw [markEndPrepare_eq hrep]
  simp [countCounted_append, Record.IsCounted, Record.encode, Record.tag, Record.body]

theorem clear (h : HoldsOver ρ seq [] [] [] b rs) : HoldsOver ρ 0 [] [] [] b.clear [] :=
  ⟨h.1, [], [], by simp [WriteBatch.clear, replicate_kHeader]; rfl, rfl, .of_reads (Reading.reads_nil ρ),
    Reading.flags_classify ρ []⟩

theorem new (ρ : Reading) (max_bytes : Nat) :
    HoldsOver ρ 0 [] [] [] (WriteBatch.new max_bytes) [] :=
  ⟨Reading.reads_nil ρ, [], [], by simp [WriteBatch.new, replicate_kHeader]; rfl, rfl,
    .of_reads (Reading.reads_nil ρ), Reading.flags_classify ρ []⟩

/-- `Append` of the first bytes `q` of the source's payload, reading as `ss`, with their
count and flags `f`: the records `ss` follow. -/
theorem appendSourced (h : HoldsOver ρ seq p₀ rs₀ base b rs) {src : WriteBatch}
    {wal_only : Bool} {q : Bytes} {ss : List Record} {f : Nat}
    (hsrc : appendSource src wal_only = (q.length, toInt32 (countCounted ss).toUInt32, f))
    (hq : (src.rep.drop kHeader).take q.length = q) (hr : ρ.Reads q ss) (hf : ρ.Flags f ss) :
    HoldsOver ρ seq p₀ rs₀ base (WriteBatchInternal.append b src wal_only).1 (rs ++ ss) := by
  obtain ⟨h0, p, new, hrep, hsp, ha, hfl⟩ := h
  rw [append_eq hrep, hsrc]
  refine ⟨h0, p ++ q, new, ?_, hsp, ha.append hr, hfl.or hf⟩
  dsimp only
  rw [hq, ofInt32_toInt32, countCounted_append, toUInt32_add]

/-- `Append` of a batch holding `ss`, without a WAL termination point to stop at: its
records follow. -/
theorem append (h : HoldsOver ρ seq p₀ rs₀ base b rs) {src : WriteBatch} {ss : List Record}
    (hs : Holds ρ src ss) {wal_only : Bool}
    (hw : WholeAppend src wal_only) :
    HoldsOver ρ seq p₀ rs₀ base (WriteBatchInternal.append b src wal_only).1 (rs ++ ss) := by
  obtain ⟨seq', -, q, new', hsrep, -, hsa, hsf⟩ := hs
  exact h.appendSourced (appendSource_whole hsrep hw) (by simp [hsrep])
    (hsa.reads (Reading.reads_nil ρ)) hsf

end HoldsOver

namespace Holds

variable {ρ : Reading} {b : WriteBatch} {rs : List Record}

theorem new (ρ : Reading) (max_bytes : Nat) : Holds ρ (WriteBatch.new max_bytes) [] :=
  ⟨0, .new ρ max_bytes⟩

/-- A batch made from bytes that `Iterate` accepts holds what the decoder reads. -/
theorem ofRep {rep : Bytes}
    (hok : ((WriteBatch.ofRep rep).iterate batchContentClassifier 0).1 = .ok) :
    ∃ rs, Holds .decoded (WriteBatch.ofRep rep) rs := by
  obtain ⟨seq, p, rs, hrep, hp, -⟩ := WriteBatch.parses_of_iterate_ok _ _ (fun _ => rfl) 0 hok
  exact ⟨rs, seq, .nil, p, [], hrep, rfl, .of_reads hp, .inl rfl⟩

/-- **Every call keeps the invariant**, given what its callers promise and records the
reading admits. -/
theorem apply (h : Holds ρ b rs) (op : Op) (he : op.Enabled b)
    (ha : ∀ r ∈ op.records, ρ.Admits r) : ∃ rs', Holds ρ (op.apply b) rs' := by
  obtain ⟨seq, h⟩ := h
  cases op with
  | append a =>
      rw [Op.apply, AppendOp.apply_eq h.rep_eq]
      obtain ⟨rs', -, h'⟩ := h.appendRecord (ha a.record (by simp [Op.records]))
      exact ⟨rs', seq, h'⟩
  | insertNoop => exact ⟨_, seq, h.insertNoop⟩
  | markEndPrepare xid =>
      obtain ⟨_, -, h'⟩ := h.markEndPrepare he (ha (.endPrepare xid) (by simp [Op.records]))
      exact ⟨_, seq, h'⟩
  | markCommit xid => exact ⟨_, seq, h.markCommit (ha (.commit xid) (by simp [Op.records]))⟩
  | markRollback xid =>
      exact ⟨_, seq, h.markRollback (ha (.rollback xid) (by simp [Op.records]))⟩
  | markWalTerminationPoint => exact ⟨_, seq, h.markWalTerminationPoint⟩
  | hasFlag flag => exact ⟨_, seq, h.hasFlag flag⟩
  | clear => exact ⟨_, 0, h.clear⟩
  | setSavePoint => exact ⟨_, seq, h.setSavePoint⟩
  | rollbackToSavePoint =>
      obtain ⟨rs', -, h', -⟩ := h.rollbackToSavePoint (.inl rfl)
      exact ⟨rs', seq, h'⟩
  | popSavePoint => exact ⟨_, seq, h.popSavePoint (.inl rfl)⟩

theorem append (h : Holds ρ b rs) {src : WriteBatch} {ss : List Record} (hs : Holds ρ src ss)
    {wal_only : Bool} (hw : WholeAppend src wal_only) :
    Holds ρ (WriteBatchInternal.append b src wal_only).1 (rs ++ ss) :=
  let ⟨seq, h⟩ := h
  ⟨seq, h.append hs hw⟩

end Holds

/-- **The invariant holds of every batch built by whole `Append`s**, from start states
where it holds, by calls whose records the reading admits. -/
theorem Reachable.holds {ρ : Reading} {Start : WriteBatch → Prop}
    {Allowed : Op → WriteBatch → Prop} {AppendAllowed : WriteBatch → Bool → Prop}
    (hstart : ∀ b, Start b → ∃ rs, Holds ρ b rs)
    (hallowed : ∀ op b, Allowed op b → ∀ r ∈ op.records, ρ.Admits r)
    (happend : ∀ src w, AppendAllowed src w → WholeAppend src w) {b : WriteBatch}
    (hb : Reachable Start Allowed AppendAllowed b) : ∃ rs, Holds ρ b rs := by
  induction hb with
  | start hs => exact hstart _ hs
  | step op _ he hal ih =>
      obtain ⟨rs, h⟩ := ih
      exact h.apply op he (hallowed op _ hal)
  | append w _ _ hw ihd ihs =>
      obtain ⟨rs, hd⟩ := ihd
      obtain ⟨ss, hs⟩ := ihs
      exact ⟨_, hd.append hs (happend _ _ hw)⟩

end RocksBatch
