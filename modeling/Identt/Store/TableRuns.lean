import Identt.Lib.Run
import Identt.Store.LastId
import Identt.Store.StoreTrans
import Identt.Store.World

/-! # Runs of table operations

Calls of `AddRecord` and `DelRecord` on any of the tables, each followed by the write of the
transaction it built, keep every table's invariant; and `AddRecord` refuses exactly what its
invariant asks it to refuse.
-/

namespace Identt.Store

open StoreTrans

/-- A call on a table and whether the data write that follows it succeeds. A deletion is of the
record that is stored under the identifier. -/
inductive TableStep where
  | addRecord (name : TableName) (record : name.Record) (upsert written : Bool)
  | delRecord (name : TableName) (n : ℕ) (written : Bool)

def tableStep (st : SharedTable) : TableStep → SharedTable
  | .addRecord name record upsert written =>
    match name.table.addRecord st.maindb record {} upsert with
    | .ok (_, transaction) => (commitData { now := 0, dataWrite := written } st transaction).2
    | .error _ => st
  | .delRecord name n written =>
    match name.table.records st.maindb n with
    | some record =>
      (commitData { now := 0, dataWrite := written } st (name.table.delRecord record {}).2).2
    | none => st

/-- When `AddRecord` refuses a record. -/
def Refused {T : Type} (table : StoreTable T) (db : DB) (record : T) (upsert : Bool) : Prop :=
  table.notfound record = true ∨ table.id record = 0 ∨
    (table.records db (table.id record) ≠ none ∧ upsert = false) ∨ table.Taken (table.records db) record

theorem not_refused_iff {T : Type} {table : StoreTable T} {db : DB} {record : T} {upsert : Bool} :
    ¬ Refused table db record upsert ↔ table.Acceptable (table.records db) record ∧
      (table.records db (table.id record) = none ∨ upsert = true) := by
  constructor
  · intro accepted
    simp only [Refused, not_or, not_and, ne_eq] at accepted
    obtain ⟨found, positive, upsertOk, free⟩ := accepted
    refine ⟨⟨positive, by simpa using found, free⟩, ?_⟩
    cases upsert with
    | true => exact .inr rfl
    | false =>
      left
      by_contra present
      exact absurd rfl (upsertOk present)
  · rintro ⟨⟨positive, found, free⟩, allowed⟩ (missing | zero | ⟨present, insertOnly⟩ | taken)
    · rw [found] at missing
      contradiction
    · exact positive zero
    · rcases allowed with absent | upsertOk
      · exact present absent
      · rw [insertOnly] at upsertOk
        contradiction
    · exact free taken

/-- `AddRecord` answers false, adding nothing, exactly to the records it refuses. -/
theorem addRecord_answer {name : TableName} {db : DB} (invariant : TableInvariant db) (record : name.Record)
    (transaction : TransactionT) (upsert : Bool) :
    ∃ accepted items, name.table.addRecord db record transaction upsert =
        .ok (accepted, transaction.append items) ∧
      (accepted = false ↔ Refused name.table db record upsert) ∧ (accepted = false → items = []) := by
  rcases (invariant name).addRecord_eq record transaction upsert with ⟨acceptable, allowed, answer⟩ |
    ⟨refused, answer⟩
  · refine ⟨true, _, answer, ?_, fun isFalse => by contradiction⟩
    have notRefused := not_refused_iff.mpr ⟨acceptable, allowed⟩
    simp [notRefused]
  · refine ⟨false, [], by rw [answer, TransactionT.append_nil], ?_, fun _ => rfl⟩
    have isRefused : Refused name.table db record upsert := by
      by_contra notRefused
      exact refused (not_refused_iff.mp notRefused)
    simp [isRefused]

theorem commitData_maindb (env : CommitEnv) (st : SharedTable) (transaction : TransactionT) :
    (commitData env st transaction).2.maindb =
      if env.dataWrite then applyItems st.maindb transaction.item else st.maindb := by
  rw [commitData]
  split
  · next empty => simp [empty]
  · split <;> rfl

/-- One call and its write keep the invariant. -/
theorem tableInvariant_step {st : SharedTable} (invariant : TableInvariant st.maindb) (label : TableStep) :
    TableInvariant (tableStep st label).maindb := by
  cases label with
  | addRecord name record upsert written =>
    rw [tableStep]
    rcases (invariant name).addRecord_eq record {} upsert with ⟨acceptable, _, answer⟩ | ⟨_, answer⟩
    · rw [answer]
      simp only [commitData_maindb, TransactionT.append_item, List.nil_append]
      split
      · have accepted : (TableOp.add name record).Accepted (worldOf st.maindb) := acceptable
        exact (RepresentsAll.apply invariant accepted).invariant
      · exact invariant
    · rw [answer]
      simpa [commitData_maindb] using invariant
  | delRecord name n written =>
    rw [tableStep]
    split
    · next record has =>
      have found := (invariant name).found n record has
      simp only [StoreTable.delRecord_eq, found, commitData_maindb]
      split
      · have accepted : (TableOp.del name record).Accepted (worldOf st.maindb) :=
          (invariant name).removable has
        exact (RepresentsAll.apply invariant accepted).invariant
      · exact invariant
    · exact invariant

theorem secondaryKeys_notMem_fenceTypes (name : TableName) :
    ∀ keytype ∈ name.table.secondaryKeys, keytype ∉ StoreLevel.fenceTypes := by
  cases name <;> decide

/-- An empty store with its fences holds no record. -/
theorem representsAll_putFences : RepresentsAll (StoreLevel.putFences .empty) fun _ _ => none := by
  apply representsAll_of_fences
  rintro key value ⟨name, keytype, member, hasType⟩ has
  rw [StoreLevel.get?_putFences, OrderedMap.get?_empty, Option.none_or] at has
  split at has
  · next fence =>
    obtain ⟨fenceType, inFences, rfl⟩ := fence
    cases has
    have same := hasType.unique (hasType_encodePrimaryKey fenceType 0)
    subst same
    refine ⟨rfl, name, ?_⟩
    rcases List.mem_cons.mp member with primary | secondary
    · rw [primary]
    · exact (secondaryKeys_notMem_fenceTypes name keytype secondary inFences).elim
  · contradiction

theorem tableInvariant_putFences : TableInvariant (StoreLevel.putFences .empty) :=
  representsAll_putFences.invariant

/-- In every state that calls of `AddRecord` and `DelRecord` reach from an empty fenced database the
tables satisfy their invariant, no two records share a unique key, and `AddRecord` refuses exactly a
record that is not found, has no identifier, exists without being updated, or has a taken unique key. -/
theorem table_runs_keep_invariant {start : SharedTable} (empty : start.maindb = StoreLevel.putFences .empty)
    (labels : List TableStep) :
    TableInvariant (Run.final tableStep start labels).maindb ∧
    (∀ name : TableName, ∀ keytype ∈ name.table.uniqueKeys, ∀ m n left right,
      name.table.records (Run.final tableStep start labels).maindb m = some left →
      name.table.records (Run.final tableStep start labels).maindb n = some right →
      name.table.getKey left keytype false = name.table.getKey right keytype false → m = n) ∧
    ∀ (name : TableName) (record : name.Record) (transaction : TransactionT) (upsert : Bool),
      ∃ accepted items, name.table.addRecord (Run.final tableStep start labels).maindb record transaction upsert =
          .ok (accepted, transaction.append items) ∧
        (accepted = false ↔ Refused name.table (Run.final tableStep start labels).maindb record upsert) ∧
        (accepted = false → items = []) := by
  have invariant : TableInvariant (Run.final tableStep start labels).maindb := by
    have initial : TableInvariant start.maindb := by
      rw [empty]
      exact tableInvariant_putFences
    exact @Run.invariant _ _ tableStep (fun st => TableInvariant st.maindb)
      (fun _ label inv => tableInvariant_step inv label) start initial labels
  refine ⟨invariant, ?_, fun name record transaction upsert => addRecord_answer invariant record transaction upsert⟩
  intro name keytype member m n left right hasLeft hasRight same
  exact (invariant name).unique (StoreTable.mem_secondaryKeys.mpr (.inl member)) hasLeft hasRight same

/-- Two updates that move a unique key and a deletion. -/
def moveAndDelete : List TableStep :=
  [.addRecord .peer { id := 2, name := ascii "a" } false true,
    .addRecord .peer { id := 2, name := ascii "b" } true true, .delRecord .peer 2 true]

theorem table_runs_keep_invariant_moveAndDelete :
    TableInvariant (Run.final tableStep { maindb := StoreLevel.putFences .empty } moveAndDelete).maindb :=
  (table_runs_keep_invariant rfl moveAndDelete).1

example : (Run.final tableStep { maindb := StoreLevel.putFences .empty } moveAndDelete).maindb =
    StoreLevel.putFences .empty := by decide +kernel

end Identt.Store
