import RocksBatch.Batch.WriteBatch

set_option autoImplicit false

/-! # Iterating a batch

`WriteBatch::Iterate` decodes the records after the header one at a time and calls the
handler's callback for each. A handler is a C++ object with virtual methods and its own
state; here it is a record of functions over a state `σ`, each returning the callback's
status and the new state. `Continue()` is not `const` in the source, so it may change the
state too.

The loop is `Handler.iterateLoop`, by well-founded recursion on the input: every decoded
record consumes at least its tag byte. Over a payload that reads as a list of records the
loop is `Handler.runRecords`, the same loop over the list (`iterateLoop_of_parses`); every
later statement about a run of `Iterate` goes through that lemma.
-/

namespace RocksBatch

/-- `WriteBatch::Handler`, over the handler's state `σ`. -/
structure Handler (σ : Type) where
  putCF : UInt32 → Bytes → Bytes → σ → Status × σ
  deleteCF : UInt32 → Bytes → σ → Status × σ
  singleDeleteCF : UInt32 → Bytes → σ → Status × σ
  deleteRangeCF : UInt32 → Bytes → Bytes → σ → Status × σ
  mergeCF : UInt32 → Bytes → Bytes → σ → Status × σ
  logData : Bytes → σ → σ
  markBeginPrepare : σ → Status × σ
  markEndPrepare : Bytes → σ → Status × σ
  markCommit : Bytes → σ → Status × σ
  markRollback : Bytes → σ → Status × σ
  «continue» : σ → Bool × σ

namespace Handler

variable {σ : Type} (h : Handler σ)

/-- The `switch (tag)` of `WriteBatch::Iterate` on one decoded record: the callback the
record selects, the status the loop goes on with and how much `found` grows. The status
of a counted callback becomes the loop's `s`; those of `LogData` and of the four 2PC
marker callbacks are dropped. -/
def dispatch : Record → σ → Status × Nat × σ
  | .put cf k v, st => let r := h.putCF cf k v st; (r.1, 1, r.2)
  | .delete cf k, st => let r := h.deleteCF cf k st; (r.1, 1, r.2)
  | .singleDelete cf k, st => let r := h.singleDeleteCF cf k st; (r.1, 1, r.2)
  | .deleteRange cf k v, st => let r := h.deleteRangeCF cf k v st; (r.1, 1, r.2)
  | .merge cf k v, st => let r := h.mergeCF cf k v st; (r.1, 1, r.2)
  | .logData blob, st => (.ok, 0, h.logData blob st)
  | .beginPrepare, st => (.ok, 0, (h.markBeginPrepare st).2)
  | .endPrepare xid, st => (.ok, 0, (h.markEndPrepare xid st).2)
  | .commit xid, st => (.ok, 0, (h.markCommit xid st).2)
  | .rollback xid, st => (.ok, 0, (h.markRollback xid st).2)
  | .noop, st => (.ok, 0, st)

/-- The `while` loop of `WriteBatch::Iterate` over the bytes after the header. It stops
when the input is used up or `Continue()` is false, returns the corruption of a record that
does not decode, and stops after a callback whose status is not OK. Returns the loop's
status, the number `found` of counted records and the handler's state. -/
def iterateLoop (input : Bytes) (found : Nat) (st : σ) : Status × Nat × σ :=
  match input with
  | [] => (.ok, found, st)
  | tag :: tail =>
      match h.continue st with
      | (false, st) => (.ok, found, st)
      | (true, st) =>
          match hr : readRecordFromWriteBatch tag tail with
          | .error s => (s, found, st)
          | .ok (r, rest) =>
              have : rest.length < (tag :: tail).length :=
                Nat.lt_succ_of_le (readRecordFromWriteBatch_length_le hr)
              match h.dispatch r st with
              | (.ok, n, st) => iterateLoop rest (found + n) st
              | (s, n, st) => (s, found + n, st)
termination_by input.length

/-- The same loop over a list of decoded records. -/
def runRecords : List Record → Nat → σ → Status × Nat × σ
  | [], found, st => (.ok, found, st)
  | r :: rs, found, st =>
      match h.continue st with
      | (false, st) => (.ok, found, st)
      | (true, st) =>
          match h.dispatch r st with
          | (.ok, n, st) => runRecords rs (found + n) st
          | (s, n, st) => (s, found + n, st)

/-! ## The statuses of the marker callbacks -/

/-- `h` with the statuses of its four 2PC marker callbacks replaced by OK, what they do to
the state kept. -/
def markersOk : Handler σ :=
  { h with
    markBeginPrepare := fun st => (.ok, (h.markBeginPrepare st).2)
    markEndPrepare := fun xid st => (.ok, (h.markEndPrepare xid st).2)
    markCommit := fun xid st => (.ok, (h.markCommit xid st).2)
    markRollback := fun xid st => (.ok, (h.markRollback xid st).2) }

@[simp] theorem markersOk_continue : h.markersOk.continue = h.continue := rfl

@[simp] theorem dispatch_markersOk (r : Record) (st : σ) :
    h.markersOk.dispatch r st = h.dispatch r st := by
  cases r <;> rfl

/-- Two handlers that continue alike and whose callbacks do the same to every record loop
alike over any bytes. -/
theorem iterateLoop_congr {h' : Handler σ} (hc : h'.continue = h.continue)
    (hd : ∀ r st, h'.dispatch r st = h.dispatch r st) :
    ∀ (p : Bytes) (found : Nat) (st : σ), h'.iterateLoop p found st = h.iterateLoop p found st
  | [], _, _ => by rw [iterateLoop, iterateLoop]
  | tag :: tail, found, st => by
      rw [iterateLoop, iterateLoop, hc]
      rcases h.continue st with ⟨_ | _, st⟩
      · rfl
      · dsimp only
        split
        · rfl
        · rename_i r rest hr
          have : rest.length < (tag :: tail).length :=
            Nat.lt_succ_of_le (readRecordFromWriteBatch_length_le hr)
          rw [hd]
          rcases h.dispatch r st with ⟨_ | _, n, st⟩
          · exact iterateLoop_congr hc hd rest _ _
          all_goals rfl
termination_by p => p.length

/-- **Decoding a payload is running its records**: on a payload that reads as `rs`, the
loop of `Iterate` makes the calls of the list. -/
theorem iterateLoop_of_parses {p : Bytes} {rs : List Record} (hp : Parses p rs) (found : Nat)
    (st : σ) : h.iterateLoop p found st = h.runRecords rs found st := by
  induction hp generalizing found st with
  | nil => simp [iterateLoop, runRecords]
  | cons hr _ ih =>
      rw [iterateLoop, runRecords]
      rcases h.continue st with ⟨_ | _, st⟩
      · rfl
      · dsimp only
        split
        · rename_i hs
          rw [hr] at hs
          cases hs
        · rename_i hs
          rw [hr] at hs
          cases hs
          rcases h.dispatch _ st with ⟨s, n, st⟩
          cases s <;> simp [ih]

/-- A loop that never stops early and ends with OK has read the whole payload. -/
theorem parses_of_iterateLoop (hc : ∀ st, (h.continue st).1 = true) :
    ∀ (p : Bytes) (found : Nat) (st : σ), (h.iterateLoop p found st).1 = .ok →
      ∃ rs, Parses p rs
  | [], _, _, _ => ⟨[], .nil⟩
  | tag :: tail, found, st, hok => by
      have hst : h.continue st = (true, (h.continue st).2) := by rw [← hc st]
      rw [iterateLoop, hst] at hok
      dsimp only at hok
      split at hok
      · rename_i s hs
        cases hok
        exact absurd hs (readRecordFromWriteBatch_ne_error_ok _ _)
      · rename_i r rest hr
        have : rest.length < (tag :: tail).length :=
          Nat.lt_succ_of_le (readRecordFromWriteBatch_length_le hr)
        split at hok
        · obtain ⟨rs, hrs⟩ := parses_of_iterateLoop hc rest _ _ hok
          exact ⟨r :: rs, .cons hr hrs⟩
        · rename_i hne _
          cases hok
          exact (hne rfl).elim
termination_by p => p.length

end Handler

/-! ## Records by kind -/

/-- The number of counted records. -/
def countCounted (rs : List Record) : Nat := (rs.filter Record.IsCounted).length

/-- The content flags of a list of records: the flag of each, or-ed. -/
def classify (rs : List Record) : Nat := rs.foldr (fun r f => r.flag ||| f) 0

@[simp] theorem countCounted_nil : countCounted [] = 0 := rfl

@[simp] theorem countCounted_cons (r : Record) (rs : List Record) :
    countCounted (r :: rs) = (if r.IsCounted then 1 else 0) + countCounted rs := by
  cases h : r.IsCounted <;> simp [countCounted, List.filter_cons, h]; omega

theorem countCounted_append (rs ss : List Record) :
    countCounted (rs ++ ss) = countCounted rs + countCounted ss := by
  simp [countCounted, List.filter_append]

@[simp] theorem classify_nil : classify [] = 0 := rfl

@[simp] theorem classify_cons (r : Record) (rs : List Record) :
    classify (r :: rs) = r.flag ||| classify rs := rfl

theorem classify_append (rs ss : List Record) :
    classify (rs ++ ss) = classify rs ||| classify ss := by
  induction rs with
  | nil => simp
  | cons r rs ih => simp [ih, Nat.or_assoc]

/-- A kind's flag is among the flags of `rs` exactly when `rs` has a record of that kind. -/
theorem classify_and_kind {flag : Nat} (hk : flag ∈ ContentFlags.kinds) (rs : List Record) :
    classify rs &&& flag = if ∃ r ∈ rs, r.flag = flag then flag else 0 := by
  induction rs with
  | nil => simp
  | cons r rs ih =>
      rw [classify_cons, Nat.and_comm, Nat.and_or_distrib_left, Nat.and_comm flag,
        Nat.and_comm flag, ih, r.flag_and_kind hk]
      by_cases hr : r.flag = flag <;> by_cases hx : ∃ r ∈ rs, r.flag = flag <;> simp [hr, hx]

/-- A callback counts its record toward `found` whatever its status. -/
theorem Handler.dispatch_found {σ : Type} (h : Handler σ) (r : Record) (st : σ) :
    (h.dispatch r st).2.1 = if r.IsCounted then 1 else 0 := by
  cases r <;> rfl

/-- A run that never stops early and ends with OK counts every counted record. -/
theorem Handler.runRecords_found {σ : Type} (h : Handler σ) (hc : ∀ st, (h.continue st).1 = true) :
    ∀ (rs : List Record) (found : Nat) (st : σ), (h.runRecords rs found st).1 = .ok →
      (h.runRecords rs found st).2.1 = found + countCounted rs
  | [], _, _, _ => rfl
  | r :: rs, found, st, hok => by
      have hst : h.continue st = (true, (h.continue st).2) := by rw [← hc st]
      rw [Handler.runRecords, hst] at hok ⊢
      dsimp only at hok ⊢
      have hn := h.dispatch_found r (h.continue st).2
      rcases hd : h.dispatch r (h.continue st).2 with ⟨s, n, st'⟩
      rw [hd] at hok hn
      cases s with
      | ok =>
          dsimp only at hok hn ⊢
          rw [h.runRecords_found hc rs _ st' hok, hn, countCounted_cons]
          omega
      | _ => cases hok

/-- Two handlers that continue alike and make the same callbacks on the records of `rs` run
`rs` alike. -/
theorem Handler.runRecords_congr {σ : Type} {h h' : Handler σ}
    (hc : ∀ st, h'.continue st = h.continue st) :
    ∀ {rs : List Record}, (∀ r ∈ rs, ∀ st, h'.dispatch r st = h.dispatch r st) →
      ∀ found st, h'.runRecords rs found st = h.runRecords rs found st
  | [], _, _, _ => rfl
  | r :: _, hd, found, st => by
      have ih := runRecords_congr hc fun r' hr' => hd r' (List.mem_cons_of_mem _ hr')
      simp only [runRecords, hc, hd r (List.mem_cons_self _ _), ih]

/-! ## The content classifier -/

/-- `BatchContentClassifier`: raises the flag of every record it is shown. -/
def batchContentClassifier : Handler Nat where
  putCF _ _ _ f := (.ok, f ||| ContentFlags.hasPut)
  deleteCF _ _ f := (.ok, f ||| ContentFlags.hasDelete)
  singleDeleteCF _ _ f := (.ok, f ||| ContentFlags.hasSingleDelete)
  deleteRangeCF _ _ _ f := (.ok, f ||| ContentFlags.hasDeleteRange)
  mergeCF _ _ _ f := (.ok, f ||| ContentFlags.hasMerge)
  logData _ f := f
  markBeginPrepare f := (.ok, f ||| ContentFlags.hasBeginPrepare)
  markEndPrepare _ f := (.ok, f ||| ContentFlags.hasEndPrepare)
  markCommit _ f := (.ok, f ||| ContentFlags.hasCommit)
  markRollback _ f := (.ok, f ||| ContentFlags.hasRollback)
  «continue» f := (true, f)

theorem batchContentClassifier_dispatch (r : Record) (f : Nat) :
    batchContentClassifier.dispatch r f = (.ok, if r.IsCounted then 1 else 0, f ||| r.flag) := by
  cases r <;> simp [Handler.dispatch, batchContentClassifier, Record.flag, Record.IsCounted]

theorem batchContentClassifier_runRecords (rs : List Record) (found f : Nat) :
    batchContentClassifier.runRecords rs found f =
      (.ok, found + countCounted rs, f ||| classify rs) := by
  induction rs generalizing found f with
  | nil => simp [Handler.runRecords]
  | cons r rs ih =>
      simp only [Handler.runRecords, batchContentClassifier_dispatch, ih]
      simp only [batchContentClassifier, countCounted_cons, classify_cons, Nat.or_assoc]
      congr 2
      omega

/-- `WriteBatch::Iterate`. -/
def WriteBatch.iterate {σ : Type} (b : WriteBatch) (h : Handler σ) (st : σ) : Status × σ :=
  if b.rep.length < kHeader then (.corruption "malformed WriteBatch (too small)", st)
  else
    match h.iterateLoop (b.rep.drop kHeader) 0 st with
    | (.ok, found, st) =>
        if (found : Int) ≠ b.count then (.corruption "WriteBatch has wrong count", st)
        else (.ok, st)
    | (s, _, st) => (s, st)

/-- **What the 2PC marker callbacks return never reaches `Iterate`**: on every batch, from
every state, `Iterate` with `h` returns the status and the state it returns with
`h.markersOk`, whose marker callbacks return OK. A marker callback that fails neither stops
the loop nor changes its status; only the five counted callbacks can. -/
theorem WriteBatch.iterate_markersOk {σ : Type} (b : WriteBatch) (h : Handler σ) (st : σ) :
    b.iterate h st = b.iterate h.markersOk st := by
  simp only [iterate, h.iterateLoop_congr (h.markersOk_continue) (h.dispatch_markersOk)]

/-- Iterating a batch whose payload reads as `rs` is running `rs`, followed by the count
check against the header count `cnt`. -/
theorem WriteBatch.iterate_eq_runRecords {σ : Type} (b : WriteBatch) (h : Handler σ) (st : σ)
    {seq : UInt64} {cnt : UInt32} {p : Bytes} {rs : List Record}
    (hrep : b.rep = headerRep seq cnt p) (hp : Parses p rs) :
    b.iterate h st =
      match h.runRecords rs 0 st with
      | (.ok, found, st) =>
          if (found : Int) ≠ toInt32 cnt then (.corruption "WriteBatch has wrong count", st)
          else (.ok, st)
      | (s, _, st) => (s, st) := by
  simp only [iterate, hrep, length_headerRep, drop_kHeader_headerRep,
    h.iterateLoop_of_parses hp, b.count_headerRep seq cnt _ hrep]
  simp

/-- Whatever its status, `Iterate` on a payload that reads as `rs` leaves the handler in the
state its run of `rs` ends in. -/
theorem WriteBatch.iterate_snd_eq_runRecords {σ : Type} (b : WriteBatch) (h : Handler σ)
    (st : σ) {seq : UInt64} {cnt : UInt32} {p : Bytes} {rs : List Record}
    (hrep : b.rep = headerRep seq cnt p) (hp : Parses p rs) :
    (b.iterate h st).2 = (h.runRecords rs 0 st).2.2 := by
  rw [b.iterate_eq_runRecords h st hrep hp]
  rcases h.runRecords rs 0 st with ⟨_ | _, n, st'⟩ <;> dsimp only
  split <;> rfl

/-- On a payload that reads as `rs`, `Iterate` depends on the handler only through its run
of `rs`. -/
theorem WriteBatch.iterate_congr {σ : Type} {b : WriteBatch} {h h' : Handler σ} {st : σ}
    {rs : List Record} (hp : Parses (b.rep.drop kHeader) rs)
    (heq : h.runRecords rs 0 st = h'.runRecords rs 0 st) : b.iterate h st = b.iterate h' st := by
  simp only [iterate, h.iterateLoop_of_parses hp, h'.iterateLoop_of_parses hp, heq]

/-- A run of the records of a nonempty payload that returns OK, having counted the header
count: `Iterate` returns OK with the run's final state. -/
theorem WriteBatch.iterate_of_runRecords {σ : Type} {b : WriteBatch} {h : Handler σ}
    {st st' : σ} {rs : List Record} {n : Nat} (hp : Parses (b.rep.drop kHeader) rs)
    (hne : rs ≠ []) (hrun : h.runRecords rs 0 st = (.ok, n, st')) (hn : (n : Int) = b.count) :
    b.iterate h st = (.ok, st') := by
  have hlen : ¬ b.rep.length < kHeader := fun hl =>
    hne (by rw [List.drop_eq_nil_of_le hl.le] at hp; exact hp.eq_nil)
  simp [iterate, hlen, h.iterateLoop_of_parses hp, hrun, hn]

/-- The classifier's flags after `Iterate`, whatever its status: those of the records. -/
theorem WriteBatch.iterate_classifier_snd (b : WriteBatch) {seq : UInt64} {cnt : UInt32}
    {p : Bytes} {rs : List Record} (hrep : b.rep = headerRep seq cnt p) (hp : Parses p rs) :
    (b.iterate batchContentClassifier 0).2 = classify rs := by
  rw [b.iterate_eq_runRecords batchContentClassifier 0 hrep hp, batchContentClassifier_runRecords]
  dsimp only
  split <;> simp

/-- The `assert` of `WriteBatch::Iterate` before the callback of a record of a kind that has a
content flag: the content flags `flags` have the record's flag or `DEFERRED`. -/
def contentFlagAssert (flags : Nat) (r : Record) : Prop :=
  r.flag ≠ 0 → flags &&& (ContentFlags.deferred ||| r.flag) ≠ 0

/-- **What `Iterate` accepts**: when a handler that never stops early gets OK from
`Iterate`, the payload reads as records, the header count is their number, below `2^31`,
and the run is that of the records. -/
theorem WriteBatch.parses_of_iterate_ok {σ : Type} (b : WriteBatch) (h : Handler σ)
    (hc : ∀ st, (h.continue st).1 = true) (st : σ) (hok : (b.iterate h st).1 = .ok) :
    ∃ seq p rs, b.rep = headerRep seq (countCounted rs).toUInt32 p ∧ Parses p rs ∧
      countCounted rs < 2 ^ 31 ∧ h.runRecords rs 0 st = (.ok, countCounted rs, (b.iterate h st).2) := by
  have hlen : kHeader ≤ b.rep.length := by
    by_contra hl
    simp [iterate, Nat.lt_of_not_le hl] at hok
  obtain ⟨seq, cnt, hrep⟩ := eq_headerRep hlen
  have hloop : (h.iterateLoop (b.rep.drop kHeader) 0 st).1 = .ok := by
    by_contra hne
    rw [iterate, if_neg (Nat.not_lt.mpr hlen)] at hok
    rcases hl : h.iterateLoop (b.rep.drop kHeader) 0 st with ⟨s, found, st'⟩
    rw [hl] at hok hne
    cases s <;> simp at hok hne
  obtain ⟨rs, hrs⟩ := h.parses_of_iterateLoop hc _ 0 st hloop
  rw [h.iterateLoop_of_parses hrs] at hloop
  have hfound := h.runRecords_found hc rs 0 st hloop
  rw [b.iterate_eq_runRecords h st hrep (by rwa [hrep, drop_kHeader_headerRep] at hrs)] at hok ⊢
  rcases hr : h.runRecords rs 0 st with ⟨s, found, st'⟩
  rw [hr] at hloop hfound hok
  obtain rfl : s = .ok := hloop
  obtain rfl : found = countCounted rs := by simpa using hfound
  dsimp only at hok ⊢
  split at hok
  · cases hok
  rename_i hne
  rw [not_not] at hne
  obtain ⟨rfl, hlt⟩ := eq_toUInt32_of_toInt32_eq hne.symm
  rw [if_neg (not_not.mpr hne)]
  exact ⟨seq, _, rs, hrep, by rwa [hrep, drop_kHeader_headerRep] at hrs, hlt, hr⟩

namespace WriteBatch

/-- `WriteBatch::ComputeContentFlags`: the content flags, after classifying the records when
they are deferred; the classification is stored (the status of its `Iterate` is not looked
at). A query changes the batch, so it returns the batch too. -/
def computeContentFlags (b : WriteBatch) : Nat × WriteBatch :=
  if b.contentFlags &&& ContentFlags.deferred ≠ 0 then
    let rv := (b.iterate batchContentClassifier 0).2
    (rv, { b with contentFlags := rv })
  else (b.contentFlags, b)

/-- The `Has*` queries: whether `ComputeContentFlags` has the bit `flag`. -/
def hasFlag (flag : Nat) (b : WriteBatch) : Bool × WriteBatch :=
  ((b.computeContentFlags.1 &&& flag) ≠ 0, b.computeContentFlags.2)

/-- `WriteBatch::HasPut`. -/
def hasPut := hasFlag ContentFlags.hasPut
/-- `WriteBatch::HasDelete`. -/
def hasDelete := hasFlag ContentFlags.hasDelete
/-- `WriteBatch::HasSingleDelete`. -/
def hasSingleDelete := hasFlag ContentFlags.hasSingleDelete
/-- `WriteBatch::HasDeleteRange`. -/
def hasDeleteRange := hasFlag ContentFlags.hasDeleteRange
/-- `WriteBatch::HasMerge`. -/
def hasMerge := hasFlag ContentFlags.hasMerge
/-- `WriteBatch::HasBeginPrepare`. -/
def hasBeginPrepare := hasFlag ContentFlags.hasBeginPrepare
/-- `WriteBatch::HasEndPrepare`. -/
def hasEndPrepare := hasFlag ContentFlags.hasEndPrepare
/-- `WriteBatch::HasCommit`. -/
def hasCommit := hasFlag ContentFlags.hasCommit
/-- `WriteBatch::HasRollback`. -/
def hasRollback := hasFlag ContentFlags.hasRollback

end WriteBatch

end RocksBatch
