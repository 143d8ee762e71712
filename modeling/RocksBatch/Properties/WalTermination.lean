import RocksBatch.Batch.Invariant

set_option autoImplicit false

/-! # The WAL termination point

`MarkWalTerminationPoint` saves the size, the count and the content flags of a batch, and
`Append(dst, src, wal_only = true)` copies from `src` the payload bytes, the count and the
flags up to that point. No call but `Clear` moves the point: after `RollbackToSavePoint` to a
save point below it, it lies past the end of the payload, `Append` reads past the end of
`src` and leaves a batch whose header counts a record it does not hold
(`rolledBackWal_past_payload`); `MarkEndPrepare` rewrites the byte at offset 12 under it.

On the batches built from fresh ones by calls that do neither (`WalSafe`) and by `Append`s,
the point stays on records that start those of the batch (`WalValid`), and an `Append` with
`wal_only` copies exactly them (`walTermPoint_valid`).
-/

namespace RocksBatch

open WriteBatch WriteBatchInternal

/-- **The WAL termination point is valid** for a batch holding `rs`: cleared, or taken on
records `rs₁` that start `rs`: its size ends their encodings, its count is their header
count and its flags are theirs. -/
def WalValid (b : WriteBatch) (rs : List Record) : Prop :=
  b.walTermPoint.isCleared = true ∨
    ∃ rs₁, rs₁ <+: rs ∧ b.walTermPoint = savePointOf (encodeRecords rs₁) rs₁ (classify rs₁)

/-- The calls that keep the WAL termination point on the payload: `MarkEndPrepare` only while
the point ends at the header, `RollbackToSavePoint` only to a save point at or past it. -/
def WalSafe : Op → WriteBatch → Prop
  | .markEndPrepare _, b => b.walTermPoint.size ≤ kHeader
  | .rollbackToSavePoint, b =>
      ∀ sp rest, b.savePoints = sp :: rest → b.walTermPoint.size ≤ sp.size
  | _, _ => True

/-! ## Records and their encodings -/

theorem encodeRecords_eq_nil {rs : List Record} (h : (encodeRecords rs).length = 0) :
    rs = [] := by
  cases rs with
  | nil => rfl
  | cons r rs => simp [Record.encode] at h

/-- Of two record prefixes of one list, the one with the shorter encoding starts the other. -/
theorem prefix_of_encode_le {rs₁ rs' rs : List Record} (h₁ : rs₁ <+: rs) (h' : rs' <+: rs)
    (hle : (encodeRecords rs₁).length ≤ (encodeRecords rs').length) : rs₁ <+: rs' := by
  rcases List.prefix_or_prefix_of_prefix h₁ h' with h | ⟨X, rfl⟩
  · exact h
  · rw [encodeRecords_append, List.length_append] at hle
    have hX : X = [] := encodeRecords_eq_nil (by omega)
    simp only [hX, List.append_nil, List.prefix_refl]

theorem length_encodeRecords_le {rs₁ rs : List Record} (h : rs₁ <+: rs) :
    (encodeRecords rs₁).length ≤ (encodeRecords rs).length := by
  obtain ⟨X, rfl⟩ := h
  simp [encodeRecords_append]

theorem HoldsOver.length_rep {seq : UInt64} {b : WriteBatch} {rs : List Record}
    (h : HoldsOver .encoded seq [] [] [] b rs) :
    b.rep.length = kHeader + (encodeRecords rs).length := by
  rw [h.rep_eq, length_headerRep, show b.rep.drop kHeader = _ from h.reads]

/-! ## What the calls do to the point -/

theorem walTermPoint_appendRecord (b : WriteBatch) (seq : UInt64) (cnt : UInt32) (p : Bytes)
    (r : Record) : (b.appendRecord seq cnt p r).1.walTermPoint = b.walTermPoint := by
  unfold appendRecord
  split <;> rfl

theorem walTermPoint_popSavePoint (b : WriteBatch) :
    b.popSavePoint.1.walTermPoint = b.walTermPoint := by
  unfold popSavePoint
  split <;> rfl

theorem walTermPoint_append (dst src : WriteBatch) (wal_only : Bool) :
    (append dst src wal_only).1.walTermPoint = dst.walTermPoint := by
  unfold append
  split
  rfl

theorem walTermPoint_rollbackToSavePoint (b : WriteBatch) :
    b.rollbackToSavePoint.1.walTermPoint = b.walTermPoint ∨
      b.rollbackToSavePoint.1.walTermPoint = .cleared := by
  unfold rollbackToSavePoint
  split
  · exact .inl rfl
  · dsimp only
    split
    · exact .inl rfl
    · split
      · exact .inr rfl
      · exact .inl rfl

/-! ## The invariant -/

namespace WalValid

variable {b b' : WriteBatch} {rs rs' : List Record}

/-- A call that leaves the point alone and only adds records keeps it valid. -/
theorem extend (h : WalValid b rs) (hp : rs <+: rs') (hw : b'.walTermPoint = b.walTermPoint) :
    WalValid b' rs' := by
  rw [WalValid, hw]
  rcases h with h | ⟨rs₁, h₁, hpt⟩
  · exact .inl h
  · exact .inr ⟨rs₁, h₁.trans hp, hpt⟩

theorem markWalTerminationPoint {seq : UInt64} (h : HoldsOver .encoded seq [] [] [] b rs) :
    WalValid b.markWalTerminationPoint rs := by
  have hf : b.contentFlags = classify rs := by
    obtain ⟨-, -, -, -, -, -, hf⟩ := h
    exact hf
  refine .inr ⟨rs, List.prefix_refl _, ?_⟩
  simp only [WriteBatch.markWalTerminationPoint, savePointOf, getDataSize, h.length_rep,
    b.count_headerRep _ _ _ h.rep_eq, hf]

/-- **Every `WalSafe` call keeps the point valid.** -/
theorem apply {seq : UInt64} (h : HoldsOver .encoded seq [] [] [] b rs) (hw : WalValid b rs)
    (op : Op) (he : op.Enabled b) (hs : WalSafe op b) :
    ∃ rs', Holds .encoded (op.apply b) rs' ∧ WalValid (op.apply b) rs' := by
  cases op with
  | append a =>
      rw [Op.apply, AppendOp.apply_eq h.rep_eq]
      obtain ⟨rs', hp, h'⟩ := h.appendRecord trivial
      exact ⟨rs', ⟨seq, h'⟩, hw.extend hp (walTermPoint_appendRecord ..)⟩
  | insertNoop => exact ⟨_, ⟨seq, h.insertNoop⟩, hw.extend (List.prefix_append _ _) rfl⟩
  | markCommit xid =>
      exact ⟨_, ⟨seq, h.markCommit trivial⟩, hw.extend (List.prefix_append _ _) rfl⟩
  | markRollback xid =>
      exact ⟨_, ⟨seq, h.markRollback trivial⟩, hw.extend (List.prefix_append _ _) rfl⟩
  | markEndPrepare xid =>
      obtain ⟨rs', -, h'⟩ := h.markEndPrepare he trivial
      refine ⟨_, ⟨seq, h'⟩, ?_⟩
      rcases hw with hc | ⟨rs₁, -, hpt⟩
      · exact .inl hc
      · have hs' : kHeader + (encodeRecords rs₁).length ≤ kHeader := by
          simpa [WalSafe, hpt, savePointOf] using hs
        obtain rfl : rs₁ = [] := encodeRecords_eq_nil (by omega)
        exact .inr ⟨[], List.nil_prefix, hpt⟩
  | markWalTerminationPoint =>
      exact ⟨rs, ⟨seq, h.markWalTerminationPoint⟩, markWalTerminationPoint h⟩
  | hasFlag flag =>
      exact ⟨rs, ⟨seq, h.hasFlag flag⟩, hw.extend (List.prefix_refl _)
        (by simp [Op.apply, WriteBatch.hasFlag, h.computeContentFlags_eq])⟩
  | clear => exact ⟨[], ⟨0, h.clear⟩, .inl rfl⟩
  | setSavePoint => exact ⟨rs, ⟨seq, h.setSavePoint⟩, hw.extend (List.prefix_refl _) rfl⟩
  | popSavePoint =>
      exact ⟨rs, ⟨seq, h.popSavePoint (.inl rfl)⟩,
        hw.extend (List.prefix_refl _) (walTermPoint_popSavePoint b)⟩
  | rollbackToSavePoint =>
      obtain ⟨rs', hp, h', hlen, -⟩ := h.rollbackToSavePoint (.inl rfl)
      refine ⟨rs', ⟨seq, h'⟩, ?_⟩
      show WalValid b.rollbackToSavePoint.1 rs'
      rcases walTermPoint_rollbackToSavePoint b with hpt' | hpt'
      · rcases hw with hc | ⟨rs₁, h₁, hpt⟩
        · exact .inl (by rw [hpt']; exact hc)
        · refine .inr ⟨rs₁, prefix_of_encode_le h₁ hp ?_, by rw [hpt', hpt]⟩
          have hl := h'.length_rep
          rcases hsp : b.savePoints with _ | ⟨sp, rest⟩
          · have hb : b.rollbackToSavePoint.1 = b := by simp [rollbackToSavePoint, hsp]
            rw [hb, h.length_rep] at hl
            have := length_encodeRecords_le h₁
            omega
          · have hs' := hs sp rest hsp
            rw [hpt, savePointOf] at hs'
            rw [hlen sp rest hsp] at hl
            dsimp only at hs'
            omega
      · exact .inl (by rw [hpt']; rfl)

end WalValid

/-- **`Append` with `wal_only` copies the records at the point**: from a batch whose point
is valid, the records it was taken on, or all of them when it is cleared. The copy reads
inside the source, and leaves any batch holding `rsd` holding `rsd` and them. -/
theorem append_walOnly {src : WriteBatch} {rs : List Record} (hs : Holds .encoded src rs)
    (hw : WalValid src rs) :
    ∃ rs₁, rs₁ <+: rs ∧
      (src.walTermPoint.isCleared = false →
        src.walTermPoint = savePointOf (encodeRecords rs₁) rs₁ (classify rs₁)) ∧
      appendReadsWithin src true ∧
      ∀ (dst : WriteBatch) (rsd : List Record), Holds .encoded dst rsd →
        Holds .encoded (append dst src true).1 (rsd ++ rs₁) := by
  obtain ⟨seq', hs'⟩ := hs
  have hl := hs'.length_rep
  rcases hw with hc | ⟨rs₁, h₁, hpt⟩
  · refine ⟨rs, List.prefix_refl _, fun hnc => by simp [hc] at hnc, ?_,
      fun dst rsd hd => hd.append ⟨seq', hs'⟩ (.inr hc)⟩
    simp only [appendReadsWithin, appendSource, hc, Bool.not_true, Bool.and_false,
      Bool.false_eq_true, if_false]
    omega
  · have hsrc : appendSource src true =
        ((encodeRecords rs₁).length, toInt32 (countCounted rs₁).toUInt32, classify rs₁) := by
      simp [appendSource, hpt, savePointOf, SavePoint.isCleared, kHeader]
    obtain ⟨X, rfl⟩ := h₁
    have hq : (src.rep.drop kHeader).take (encodeRecords rs₁).length = encodeRecords rs₁ := by
      rw [show src.rep.drop kHeader = _ from hs'.reads, encodeRecords_append, List.take_left' rfl]
    refine ⟨rs₁, List.prefix_append _ _, fun _ => hpt, ?_,
      fun dst rsd ⟨sq, hd⟩ => ⟨sq, hd.appendSourced hsrc hq rfl rfl⟩⟩
    rw [appendReadsWithin, hsrc, hl, encodeRecords_append, List.length_append]
    omega

/-- The invariant along every run of `WalSafe` calls and `Append`s from fresh batches. -/
theorem Reachable.walValid {b : WriteBatch}
    (hb : Reachable Fresh WalSafe (fun _ _ => True) b) :
    ∃ rs, Holds .encoded b rs ∧ WalValid b rs := by
  induction hb with
  | start hs =>
      obtain ⟨m, rfl⟩ := hs
      exact ⟨[], Holds.new .encoded m, .inl rfl⟩
  | step op _ he hsafe ih =>
      obtain ⟨rs, ⟨seq, h⟩, hw⟩ := ih
      exact hw.apply h op he hsafe
  | @append dst src w _ _ _ ihd ihs =>
      obtain ⟨rsd, hd, hwd⟩ := ihd
      obtain ⟨rs, hs, hws⟩ := ihs
      cases w with
      | false =>
          exact ⟨_, hd.append hs (.inl rfl),
            hwd.extend (List.prefix_append _ _) (walTermPoint_append ..)⟩
      | true =>
          obtain ⟨rs₁, -, -, -, happ⟩ := append_walOnly hs hws
          exact ⟨_, happ dst rsd hd, hwd.extend (List.prefix_append _ _) (walTermPoint_append ..)⟩

/-- **The WAL termination point stays on the records it was taken on** in every batch built
from fresh batches by `WalSafe` calls and by `Append`s: the batch holds records `rs`, and the
records `rs₁` that `Append` with `wal_only` copies start them; the point, when set, has their
size, header count and flags; the copy reads inside the batch, and appending it to any batch
holding `rsd` leaves one holding `rsd ++ rs₁`, with their header count and flags. -/
theorem walTermPoint_valid {src : WriteBatch}
    (hs : Reachable Fresh WalSafe (fun _ _ => True) src) :
    ∃ rs rs₁, Holds .encoded src rs ∧ rs₁ <+: rs ∧
      (src.walTermPoint.isCleared = false →
        src.walTermPoint = savePointOf (encodeRecords rs₁) rs₁ (classify rs₁)) ∧
      appendReadsWithin src true ∧
      ∀ (dst : WriteBatch) (rsd : List Record), Holds .encoded dst rsd →
        Holds .encoded (append dst src true).1 (rsd ++ rs₁) := by
  obtain ⟨rs, h, hw⟩ := Reachable.walValid hs
  obtain ⟨rs₁, h₁, hpt, hr, happ⟩ := append_walOnly h hw
  exact ⟨rs, rs₁, h, h₁, hpt, hr, happ⟩

/-- A fresh batch after a `Put`, the WAL termination point and a second `Put`. -/
def walMarked : WriteBatch :=
  (Op.append (.put 0 [3] [4])).apply
    (Op.markWalTerminationPoint.apply ((Op.append (.put 0 [1] [2])).apply (WriteBatch.new 0)))

theorem walTermPoint_valid_walMarked :
    Reachable Fresh WalSafe (fun _ _ => True) walMarked ∧
      ∃ rs rs₁, Holds .encoded walMarked rs ∧ rs₁ <+: rs ∧
        (walMarked.walTermPoint.isCleared = false →
          walMarked.walTermPoint = savePointOf (encodeRecords rs₁) rs₁ (classify rs₁)) ∧
        appendReadsWithin walMarked true ∧
        ∀ (dst : WriteBatch) (rsd : List Record), Holds .encoded dst rsd →
          Holds .encoded (append dst walMarked true).1 (rsd ++ rs₁) := by
  have hr : Reachable Fresh WalSafe (fun _ _ => True) walMarked :=
    .step _ (.step _ (.step _ (.start ⟨0, rfl⟩) trivial trivial) trivial trivial) trivial trivial
  exact ⟨hr, walTermPoint_valid hr⟩

/-! ## A point past the payload -/

/-- A fresh batch after a save point, a `Put`, the WAL termination point, and back to the
save point. -/
def rolledBackWal : WriteBatch :=
  Op.rollbackToSavePoint.apply (Op.markWalTerminationPoint.apply
    ((Op.append (.put 0 [1] [2])).apply (Op.setSavePoint.apply (WriteBatch.new 0))))

/-- `rolledBackWal` is built by calls with short fields, yet its WAL termination point is
set and lies past the end of its payload: `Append` with `wal_only` reads past the end, and on
a fresh batch leaves a header count of one record over an empty payload, which `Iterate`
rejects. -/
theorem rolledBackWal_past_payload :
    Reachable Fresh (fun op _ => op.Small) (fun _ _ => True) rolledBackWal ∧
      rolledBackWal.walTermPoint.isCleared = false ∧
      rolledBackWal.rep.length < rolledBackWal.walTermPoint.size ∧
      ¬ appendReadsWithin rolledBackWal true ∧
      ((append (WriteBatch.new 0) rolledBackWal true).1.iterate batchContentClassifier 0).1 ≠
        .ok := by
  have hrep : (append (WriteBatch.new 0) rolledBackWal true).1.rep = headerRep 0 1 [] := by
    decide
  refine ⟨.step _ (.step _ (.step _ (.step _ (.start ⟨0, rfl⟩) trivial (by decide)) trivial
    (by decide)) trivial (by decide)) trivial (by decide), by decide, by decide,
    by unfold appendReadsWithin; decide, ?_⟩
  rw [WriteBatch.iterate_eq_runRecords _ _ _ hrep .nil]
  decide

end RocksBatch
