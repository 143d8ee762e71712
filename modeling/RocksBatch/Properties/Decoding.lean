import RocksBatch.Batch.WellFormed
import RocksBatch.Properties.RoundTrip

set_option autoImplicit false

/-! # What Iterate reads, and where it stops

`WriteBatch::Iterate` reads the payload record after record, shows each record to the handler
before it reads the next, and gives up at the first record that does not decode.

* `readRecords p` is that reading on its own: the complete records at the front of `p` and
  the status at which the reading ends; it ends with OK exactly on the payloads that read as
  records (`parses_iff_readRecords`).
* With a handler that always continues and whose callbacks return OK, `Iterate` on any bytes
  returns OK exactly when the payload reads as records whose counted number is the header
  count, and the handler has seen the records at the front of the payload, in order
  (`iterate_accepts_exactly`).
* A handler whose `Continue()` answers false is shown the records before that answer
  (`Handler.shown`), a prefix of the records; the count check then compares the header with
  the counted records shown, so that stopping before a counted record ends in
  `Corruption: WriteBatch has wrong count` on a batch whose header is right
  (`stopAtOnce_wrong_count`, `iterate_stopped_counts_shown`).
-/

namespace RocksBatch

/-! ## The records at the front of a payload -/

/-- The complete records at the front of a payload, read one after another until the payload
is used up (status OK) or a record does not decode (its status). Each record read leaves
fewer bytes, which is what makes the reading end. -/
def readRecords (input : Bytes) : List Record × Status :=
  match input with
  | [] => ([], .ok)
  | tag :: tail =>
      match hr : readRecordFromWriteBatch tag tail with
      | .error s => ([], s)
      | .ok (r, rest) =>
          have : rest.length < (tag :: tail).length :=
            Nat.lt_succ_of_le (readRecordFromWriteBatch_length_le hr)
          Prod.map (List.cons r) id (readRecords rest)
termination_by input.length

@[simp] theorem readRecords_nil : readRecords [] = ([], .ok) := by
  rw [readRecords]

theorem readRecords_cons_error {tag : UInt8} {tail : Bytes} {s : Status}
    (hr : readRecordFromWriteBatch tag tail = .error s) : readRecords (tag :: tail) = ([], s) := by
  rw [readRecords]
  split <;> rename_i h <;> rw [hr] at h <;> cases h
  rfl

theorem readRecords_cons_ok {tag : UInt8} {tail rest : Bytes} {r : Record}
    (hr : readRecordFromWriteBatch tag tail = .ok (r, rest)) :
    readRecords (tag :: tail) = Prod.map (List.cons r) id (readRecords rest) := by
  rw [readRecords]
  split <;> rename_i h <;> rw [hr] at h <;> cases h
  rfl

theorem parses_of_readRecords : ∀ {p : Bytes} {rs : List Record},
    readRecords p = (rs, .ok) → Parses p rs
  | [], rs, h => by
      rw [readRecords_nil, Prod.mk.injEq] at h
      rw [← h.1]
      exact .nil
  | tag :: tail, rs, h => by
      rcases hr : readRecordFromWriteBatch tag tail with s | ⟨r, rest⟩
      · rw [readRecords_cons_error hr, Prod.mk.injEq] at h
        rw [h.2] at hr
        exact absurd hr (readRecordFromWriteBatch_ne_error_ok _ _)
      · have : rest.length < (tag :: tail).length :=
          Nat.lt_succ_of_le (readRecordFromWriteBatch_length_le hr)
        rw [readRecords_cons_ok hr] at h
        rcases hrest : readRecords rest with ⟨rs', s⟩
        rw [hrest] at h
        cases h
        exact .cons hr (parses_of_readRecords hrest)
termination_by p => p.length

/-- **The reading ends with OK exactly on the payloads that read as records.** -/
theorem parses_iff_readRecords {p : Bytes} {rs : List Record} :
    Parses p rs ↔ readRecords p = (rs, .ok) := by
  refine ⟨fun hp => ?_, parses_of_readRecords⟩
  induction hp with
  | nil => exact readRecords_nil
  | cons hr _ ih => rw [readRecords_cons_ok hr, ih]; rfl

/-! ## The loop of `Iterate` on any payload -/

namespace Handler

variable {σ : Type} (h : Handler σ)

section Turn

variable {tag : UInt8} {tail : Bytes} {found : Nat} {st st' : σ}
  (hst : h.continue st = (true, st'))
include hst

/-- A turn of the loop of `Iterate` at a record that does not decode. -/
theorem iterateLoop_cons_error {s : Status} (hr : readRecordFromWriteBatch tag tail = .error s) :
    h.iterateLoop (tag :: tail) found st = (s, found, st') := by
  rw [iterateLoop, hst]
  dsimp only
  split <;> rename_i hr' <;> rw [hr] at hr' <;> cases hr'
  rfl

/-- A turn of the loop of `Iterate` at a record whose callback returns OK. -/
theorem iterateLoop_cons_ok {r : Record} {rest : Bytes} {n : Nat} {st'' : σ}
    (hr : readRecordFromWriteBatch tag tail = .ok (r, rest))
    (hd : h.dispatch r st' = (.ok, n, st'')) :
    h.iterateLoop (tag :: tail) found st = h.iterateLoop rest (found + n) st'' := by
  rw [iterateLoop, hst]
  dsimp only
  split <;> rename_i hr' <;> rw [hr] at hr' <;> cases hr'
  rw [hd]

end Turn

/-- **The loop of `Iterate` reads the records at the front of the payload**: with a handler
that always continues and whose callbacks return OK, the loop ends with the status of the
reading, has counted the counted records read, and has shown the handler each of them in
order; when the reading stopped at a record that does not decode, `Continue()` was asked once
more before it. -/
theorem iterateLoop_readRecords (hc : ∀ st, (h.continue st).1 = true)
    (hok : ∀ x st, (h.dispatch x st).1 = .ok) :
    ∀ (p : Bytes) (found : Nat) (st : σ), h.iterateLoop p found st =
      ((readRecords p).2, found + countCounted (readRecords p).1,
        if (readRecords p).2 = .ok then (h.runRecords (readRecords p).1 found st).2.2
        else (h.continue (h.runRecords (readRecords p).1 found st).2.2).2)
  | [], found, st => by simp [iterateLoop, runRecords]
  | tag :: tail, found, st => by
      obtain ⟨st₁, hst⟩ : ∃ st₁, h.continue st = (true, st₁) := ⟨_, by rw [← hc st]⟩
      rcases hr : readRecordFromWriteBatch tag tail with s | ⟨r, rest⟩
      · have hs : s ≠ .ok := fun hs => readRecordFromWriteBatch_ne_error_ok _ _ (hs ▸ hr)
        simp [h.iterateLoop_cons_error hst hr, readRecords_cons_error hr, hs, runRecords, hst]
      · have : rest.length < (tag :: tail).length :=
          Nat.lt_succ_of_le (readRecordFromWriteBatch_length_le hr)
        have hn := h.dispatch_found r st₁
        have hd := hok r st₁
        rcases hdr : h.dispatch r st₁ with ⟨s, n, st'⟩
        rw [hdr] at hn hd
        dsimp only at hn hd
        subst hd hn
        rw [h.iterateLoop_cons_ok hst hr hdr, iterateLoop_readRecords hc hok rest,
          readRecords_cons_ok hr]
        simp only [Prod.map_fst, Prod.map_snd, id, runRecords, hst, hdr, countCounted_cons,
          Nat.add_assoc]
termination_by p => p.length

end Handler

/-! ## What `Iterate` accepts -/

/-- A count below `2^31` is the header count exactly when it is the header's `uint32`. -/
theorem natCast_eq_toInt32_iff {n : Nat} {v : UInt32} (hn : n < 2 ^ 31) :
    (n : Int) = toInt32 v ↔ n = v.toNat := by
  constructor
  · intro he
    obtain ⟨rfl, -⟩ := eq_toUInt32_of_toInt32_eq he.symm
    rw [toNat_toUInt32_of_lt (by omega)]
  · rintro rfl
    rw [toInt32, if_pos hn]

/-- `Iterate` once its loop has run over the payload of a batch of at least 12 bytes. -/
theorem WriteBatch.iterate_of_loop {σ : Type} {b : WriteBatch} {h : Handler σ} {st st' : σ}
    {s : Status} {found : Nat} (hl : kHeader ≤ b.rep.length)
    (hloop : h.iterateLoop (b.rep.drop kHeader) 0 st = (s, found, st')) :
    b.iterate h st =
      (if s = .ok then
        (if (found : Int) ≠ b.count then .corruption "WriteBatch has wrong count" else .ok)
      else s, st') := by
  rw [WriteBatch.iterate, if_neg (Nat.not_lt.mpr hl), hloop]
  cases s <;> simp only [if_true, reduceCtorEq, if_false]
  split <;> simp [*]

theorem countCounted_le_length (rs : List Record) : countCounted rs ≤ rs.length :=
  List.length_filter_le _ _

/-- **Iterate accepts exactly the format**: on any bytes `r` whose payload has fewer than
`2^31` records at its front, `Iterate` on `WriteBatch(r)` with a handler that always
continues and whose callbacks return OK returns OK exactly when `r` has its 12 header bytes,
the payload reads as records with nothing left over, and their counted number is the header
count read from bytes 8 to 11. Whatever it returns, the handler has been shown the records
at the front of the payload, in order, and no other; when a record did not decode,
`Continue()` was asked once more before it. -/
theorem iterate_accepts_exactly (r : Bytes) {σ : Type} (h : Handler σ)
    (hc : ∀ st, (h.continue st).1 = true) (hok : ∀ x st, (h.dispatch x st).1 = .ok) (st : σ)
    (hn : (readRecords (r.drop kHeader)).1.length < 2 ^ 31) :
    (((WriteBatch.ofRep r).iterate h st).1 = .ok ↔
      kHeader ≤ r.length ∧ ∃ rs, Parses (r.drop kHeader) rs ∧
        countCounted rs = (decodeFixed32 (r.drop 8)).toNat) ∧
    ((WriteBatch.ofRep r).iterate h st).2 =
      if (readRecords (r.drop kHeader)).2 = .ok then
        (h.runRecords (readRecords (r.drop kHeader)).1 0 st).2.2
      else (h.continue (h.runRecords (readRecords (r.drop kHeader)).1 0 st).2.2).2 := by
  have hloop := h.iterateLoop_readRecords hc hok (r.drop kHeader) 0 st
  rcases hrr : readRecords (r.drop kHeader) with ⟨rs, s⟩
  rw [hrr] at hloop hn
  dsimp only at hloop ⊢
  by_cases hl : kHeader ≤ r.length
  swap
  · have hp : r.drop kHeader = [] := List.drop_eq_nil_of_le (by omega)
    rw [hp, readRecords_nil, Prod.mk.injEq] at hrr
    obtain ⟨rfl, rfl⟩ := hrr
    simp [WriteBatch.iterate, WriteBatch.ofRep, Nat.lt_of_not_le hl, hl, Handler.runRecords]
  rw [WriteBatch.iterate_of_loop hl hloop]
  by_cases hs : s = .ok
  swap
  · refine ⟨?_, by simp [hs]⟩
    simp only [hs, ↓reduceIte, false_iff, not_and, not_exists]
    intro _ rs' hp' _
    rw [parses_iff_readRecords, hrr, Prod.mk.injEq] at hp'
    exact hs hp'.2
  subst hs
  have hp := parses_of_readRecords hrr
  have hex : (∃ rs', Parses (r.drop kHeader) rs' ∧
      countCounted rs' = (decodeFixed32 (r.drop 8)).toNat) ↔
      countCounted rs = (decodeFixed32 (r.drop 8)).toNat :=
    ⟨fun ⟨_, hp', he⟩ => hp.det hp' ▸ he, fun he => ⟨rs, hp, he⟩⟩
  have hcount := @natCast_eq_toInt32_iff _ (decodeFixed32 (r.drop 8))
    ((countCounted_le_length rs).trans_lt hn)
  refine ⟨?_, by simp⟩
  simp only [if_true, Nat.zero_add, WriteBatch.count, WriteBatch.ofRep, ne_eq, hcount, hex, hl,
    true_and]
  by_cases he : countCounted rs = (decodeFixed32 (r.drop 8)).toNat <;> simp [he]

theorem iterate_accepts_exactly_onePut :
    (∀ st, (recorder.continue st).1 = true) ∧ (∀ x st, (recorder.dispatch x st).1 = .ok) ∧
      (readRecords (onePut.rep.drop kHeader)).1.length < 2 ^ 31 ∧
      ((((WriteBatch.ofRep onePut.rep).iterate recorder []).1 = .ok ↔
        kHeader ≤ onePut.rep.length ∧ ∃ rs, Parses (onePut.rep.drop kHeader) rs ∧
          countCounted rs = (decodeFixed32 (onePut.rep.drop 8)).toNat) ∧
      ((WriteBatch.ofRep onePut.rep).iterate recorder []).2 =
        if (readRecords (onePut.rep.drop kHeader)).2 = .ok then
          (recorder.runRecords (readRecords (onePut.rep.drop kHeader)).1 0 []).2.2
        else (recorder.continue
          (recorder.runRecords (readRecords (onePut.rep.drop kHeader)).1 0 []).2.2).2) := by
  have hc : ∀ st, (recorder.continue st).1 = true := fun _ => rfl
  have hok : ∀ x st, (recorder.dispatch x st).1 = .ok := fun x st => by rw [recorder_dispatch]
  have hn : (readRecords (onePut.rep.drop kHeader)).1.length < 2 ^ 31 := by
    rw [parses_iff_readRecords.mp parses_onePut]
    decide
  exact ⟨hc, hok, hn, iterate_accepts_exactly onePut.rep recorder hc hok [] hn⟩

/-! ## A handler that stops early -/

namespace Handler

variable {σ : Type} (h : Handler σ)

/-- The records of `rs` a run shows the handler: those before `Continue()` first answers
false, up to the first callback whose status is not OK. -/
def shown : List Record → σ → List Record
  | [], _ => []
  | r :: rs, st =>
      match h.continue st with
      | (false, _) => []
      | (true, st) =>
          match h.dispatch r st with
          | (.ok, _, st) => r :: shown rs st
          | _ => [r]

theorem shown_prefix : ∀ (rs : List Record) (st : σ), h.shown rs st <+: rs
  | [], _ => List.nil_prefix
  | r :: rs, st => by
      unfold shown
      split
      · exact List.nil_prefix
      · split
        · exact List.cons_prefix_cons.mpr ⟨rfl, shown_prefix rs _⟩
        · exact List.cons_prefix_cons.mpr ⟨rfl, List.nil_prefix⟩

/-- A run whose callbacks return OK ends with OK, having counted the counted records shown,
wherever `Continue()` stopped it. -/
theorem runRecords_shown (hok : ∀ x st, (h.dispatch x st).1 = .ok) :
    ∀ (rs : List Record) (found : Nat) (st : σ),
      (h.runRecords rs found st).1 = .ok ∧
        (h.runRecords rs found st).2.1 = found + countCounted (h.shown rs st)
  | [], _, _ => ⟨rfl, rfl⟩
  | r :: rs, found, st => by
      unfold runRecords shown
      rcases h.continue st with ⟨_ | _, st₁⟩
      · exact ⟨rfl, rfl⟩
      · have hn := h.dispatch_found r st₁
        have hd := hok r st₁
        dsimp only
        rcases hdr : h.dispatch r st₁ with ⟨s, n, st'⟩
        rw [hdr] at hn hd
        dsimp only at hn hd
        subst hd hn
        dsimp only
        rw [countCounted_cons, ← Nat.add_assoc]
        exact runRecords_shown hok rs _ st'

end Handler

/-- A handler that makes every callback as the recorder does and asks to stop before the
first record. -/
def stopAtOnce : Handler (List Call) := { recorder with «continue» := fun calls => (false, calls) }

theorem onePut_rep :
    onePut.rep =
      headerRep 0 (countCounted [.put 0 [1] [2]]).toUInt32 (encodeRecords [.put 0 [1] [2]]) := by
  decide

theorem iterate_recorder_ofRep_onePut :
    (WriteBatch.ofRep onePut.rep).iterate recorder [] = (.ok, [.putCF 0 [1] [2]]) :=
  iterate_recorder onePut_rep (parses_encodeRecords (by decide)) (by decide)

/-- **Stopping early is reported as a wrong count**: the one-`Put` batch, which `Iterate`
with the recorder accepts and whose header counts its one counted record, makes `Iterate`
return `Corruption: WriteBatch has wrong count` to a handler that asks to stop at once. -/
theorem stopAtOnce_wrong_count :
    ((WriteBatch.ofRep onePut.rep).iterate recorder []).1 = .ok ∧
      (WriteBatch.ofRep onePut.rep).count = countCounted [.put 0 [1] [2]] ∧
      (WriteBatch.ofRep onePut.rep).iterate stopAtOnce [] =
        (.corruption "WriteBatch has wrong count", []) := by
  refine ⟨by rw [iterate_recorder_ofRep_onePut], ?_, ?_⟩
  · rw [(WriteBatch.ofRep onePut.rep).count_headerRep _ _ _ onePut_rep,
      toInt32_toUInt32 (by decide)]
  · rw [(WriteBatch.ofRep onePut.rep).iterate_eq_runRecords _ _ onePut_rep
      (parses_encodeRecords (by decide))]
    rfl

/-- **A handler that stops early is shown a prefix of the records and gets OK only when no
counted record is left unshown**: on a batch that `Iterate` accepts for a handler that never
stops, the payload reads as records counted by the header; a handler whose callbacks return
OK is shown the records before `Continue()` first answers false, and `Iterate` returns OK
when they hold every counted record and `Corruption: WriteBatch has wrong count` otherwise. -/
theorem iterate_stopped_counts_shown {b : WriteBatch} {σ₀ : Type} (h₀ : Handler σ₀)
    (hc₀ : ∀ st, (h₀.continue st).1 = true) (st₀ : σ₀) (hok₀ : (b.iterate h₀ st₀).1 = .ok)
    {σ : Type} (h : Handler σ) (hok : ∀ x st, (h.dispatch x st).1 = .ok) (st : σ) :
    ∃ rs, Parses (b.rep.drop kHeader) rs ∧ b.count = countCounted rs ∧ h.shown rs st <+: rs ∧
      b.iterate h st =
        (if countCounted (h.shown rs st) = countCounted rs then .ok
          else .corruption "WriteBatch has wrong count", (h.runRecords rs 0 st).2.2) := by
  obtain ⟨seq, p, rs, hrep, hp, hlt, -⟩ := b.parses_of_iterate_ok h₀ hc₀ st₀ hok₀
  refine ⟨rs, by rwa [hrep, drop_kHeader_headerRep], ?_, h.shown_prefix rs st, ?_⟩
  · rw [b.count_headerRep _ _ _ hrep, toInt32_toUInt32 hlt]
  rw [b.iterate_eq_runRecords h st hrep hp, toInt32_toUInt32 hlt]
  obtain ⟨hs, hn⟩ := h.runRecords_shown hok rs 0 st
  rcases hr : h.runRecords rs 0 st with ⟨s, n, st'⟩
  rw [hr] at hs hn
  dsimp only at hs hn ⊢
  subst hs hn
  by_cases he : countCounted (h.shown rs st) = countCounted rs <;> simp [he]

theorem iterate_stopped_counts_shown_onePut :
    (∀ st, (recorder.continue st).1 = true) ∧
      ((WriteBatch.ofRep onePut.rep).iterate recorder []).1 = .ok ∧
      (∀ x st, (stopAtOnce.dispatch x st).1 = .ok) ∧
      ∃ rs, Parses ((WriteBatch.ofRep onePut.rep).rep.drop kHeader) rs ∧
        (WriteBatch.ofRep onePut.rep).count = countCounted rs ∧
        stopAtOnce.shown rs [] <+: rs ∧
        (WriteBatch.ofRep onePut.rep).iterate stopAtOnce [] =
          (if countCounted (stopAtOnce.shown rs []) = countCounted rs then .ok
            else .corruption "WriteBatch has wrong count", (stopAtOnce.runRecords rs 0 []).2.2) := by
  have hc : ∀ st, (recorder.continue st).1 = true := fun _ => rfl
  have hok₀ : ((WriteBatch.ofRep onePut.rep).iterate recorder []).1 = .ok := by
    rw [iterate_recorder_ofRep_onePut]
  have hok : ∀ x st, (stopAtOnce.dispatch x st).1 = .ok := fun x _ => by cases x <;> rfl
  exact ⟨hc, hok₀, hok, iterate_stopped_counts_shown recorder hc [] hok₀ stopAtOnce hok []⟩

end RocksBatch
