import RocksBatch.Inserter.MemTableInserter

set_option autoImplicit false

/-! # Folding merges

When the memtable already holds `max_successive_merges` merges at the head of a key,
`MergeCF` folds the new operand onto the key's current value and adds the result as a value.
The current value is what `db_->Get` leaves in `get_value`; the status `Get` returns is not
looked at. On a key `Get` does not find, `get_value` stays empty and the operand is folded
onto the empty string.

* `mergeValue_entry`: in every case `MergeCF` adds one entry at the current sequence: the
  operand as a merge, or the full merge of the operand onto the string `Get` leaves.
* `mergeCF_ignores_read_status`: the callback is the same whatever status `Get` returns.
* `mergeCF_folds_onto_notFound`: a read that finds nothing, and a value made from the empty
  string.
-/

namespace RocksBatch

open MemTableInserter InserterState

/-- `MergeCF` folds merges on the key: the memtable options ask for it, a DB is attached,
this is not recovery, and the memtable holds enough successive merges at the head of the
key. -/
def Env.Folds (env : Env) (cf : ColumnFamily) (cfId : UInt32) (seq : UInt64) (key : Bytes) :
    Prop :=
  0 < cf.maxSuccessiveMerges ∧ env.hasDb ∧ env.recoveringLogNumber = 0 ∧
    cf.maxSuccessiveMerges ≤ env.countSuccessiveMergeEntries cfId seq key

/-- **The memtable write of `MergeCF` adds one entry at the current sequence**: the operand
as a merge, or, on the folding path when the merge succeeds, a value that is the full merge of
the operand onto the string `Get` leaves. -/
theorem mergeValue_entry (env : Env) (cfId : UInt32) (key value : Bytes) (cf : ColumnFamily)
    (st : InserterState) :
    ∃ entry, mergeValue env cfId key value cf st = st.emit entry ∧
      (entry = .add cfId st.sequence .kTypeMerge key value ∨
        ∃ v, env.Folds cf cfId st.sequence key ∧
          cf.fullMerge key (env.dbGet cfId st.sequence key).2 value = some v ∧
          entry = .add cfId st.sequence .kTypeValue key v) := by
  unfold mergeValue
  dsimp only
  by_cases hf : env.Folds cf cfId st.sequence key <;> unfold Env.Folds at hf
  · rw [if_pos hf]
    rcases hm : cf.fullMerge key (env.dbGet cfId st.sequence key).2 value with _ | v
    · exact ⟨_, rfl, .inl rfl⟩
    · exact ⟨_, rfl, .inr ⟨v, hf, rfl, rfl⟩⟩
  · rw [if_neg hf]
    exact ⟨_, rfl, .inl rfl⟩

/-- **`MergeCF` does not look at the status of `Get`**: an environment whose `Get` returns
any other status with the same value string makes the callback return the same status and
state, from every state. -/
theorem mergeCF_ignores_read_status (env : Env) (s : Status) (cfId : UInt32) (key value : Bytes)
    (st : InserterState) :
    mergeCF { env with dbGet := fun c q k => (s, (env.dbGet c q k).2) } cfId key value st =
      mergeCF env cfId key value st :=
  rfl

/-- A column family that folds merges from the first one, with a merge operator that
appends the operand to the existing value. -/
def appendFamily : ColumnFamily :=
  { ColumnFamily.plain 0 with
    maxSuccessiveMerges := 1
    fullMerge := fun _ existing operand => some (existing ++ operand) }

/-- The column family `0` is `appendFamily`; its memtable holds one merge at the head of every
key, and `Get` finds nothing (`Env.plain`). -/
def foldingEnv : Env :=
  { Env.plain 0 with
    columnFamily := fun cf => if cf = 0 then some appendFamily else none
    countSuccessiveMergeEntries := fun _ _ _ => 1 }

/-- **A merge folded onto a value that was not read**: `Get` of the key returns NotFound,
yet `MergeCF` of the operand `[2]` returns OK having added the value `[2]`, the operand
folded onto the empty string, and no merge; it does exactly what it does when `Get` returns
OK with an empty value. -/
theorem mergeCF_folds_onto_notFound :
    (foldingEnv.dbGet 0 0 [1]).1 = .notFound "" ∧
      mergeCF foldingEnv 0 [1] [2] (InserterState.start 0 fun _ => none) =
        mergeCF { foldingEnv with dbGet := fun c q k => (.ok, (foldingEnv.dbGet c q k).2) } 0
          [1] [2] (InserterState.start 0 fun _ => none) ∧
      (mergeCF foldingEnv 0 [1] [2] (InserterState.start 0 fun _ => none)).1 = .ok ∧
      (mergeCF foldingEnv 0 [1] [2] (InserterState.start 0 fun _ => none)).2.effects =
        [.add 0 0 .kTypeValue [1] [2]] :=
  ⟨rfl, (mergeCF_ignores_read_status foldingEnv .ok 0 [1] [2] _).symm, by decide, by decide⟩

end RocksBatch
