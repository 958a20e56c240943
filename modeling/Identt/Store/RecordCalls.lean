import Identt.Store.World

/-! # Transactions of `AddRecord` and `DelRecord`

A transaction is built by any number of calls of both, each with any record of any table and made
against whatever the database holds at that moment. All its keys are then keys of the tables.
-/

namespace Identt.Store

namespace StoreTable

variable {T : Type} [Inhabited T] (table : StoreTable T)

/-- The stored record that `AddRecord` is going to replace. -/
def oldRecord (db : DB) (record : T) : Option T :=
  match table.getOne db (table.setId default (table.id record)) table.primaryKey with
  | .ok (true, old) => some old
  | _ => none

/-- `AddRecord` looks at the database only, and appends to the transaction. -/
theorem addRecord_appends (db : DB) (record : T) (upsert : Bool) :
    (∃ e, ∀ transaction, table.addRecord db record transaction upsert = .error e) ∨
    (∀ transaction, table.addRecord db record transaction upsert = .ok (false, transaction)) ∨
    ∀ transaction, table.addRecord db record transaction upsert =
      .ok (true, transaction.append (table.recordItems (table.oldRecord db record) record)) := by
  by_cases missing : table.notfound record = true
  · exact .inr (.inl fun transaction => by simp [addRecord, missing, pure, Except.pure])
  by_cases zero : table.id record = 0
  · exact .inr (.inl fun transaction => by simp [addRecord, missing, zero, pure, Except.pure])
  cases call : table.getOne db (table.setId default (table.id record)) table.primaryKey with
  | error e => exact .inl ⟨e, fun transaction => by simp [addRecord, missing, zero, call, bind, Except.bind]⟩
  | ok answer =>
    obtain ⟨exists', old⟩ := answer
    by_cases refused : (exists' && !upsert) = true
    · exact .inr (.inl fun transaction => by
        simp [addRecord, missing, zero, call, bind, Except.bind, refused, pure, Except.pure])
    by_cases clash : table.uniqueKeys.any (table.clashes db record) = true
    · exact .inr (.inl fun transaction => by
        simp [addRecord, missing, zero, call, bind, Except.bind, refused, clash, pure, Except.pure])
    · have replaced : table.oldRecord db record = if exists' then some old else none := by
        rw [oldRecord, call]
        cases exists' <;> rfl
      refine .inr (.inr fun transaction => ?_)
      simp [addRecord, missing, zero, call, bind, Except.bind, refused, clash, pure, Except.pure, foldl_moveKey,
        recordItems, secondaryKeys, addTrans_put, table.getKey_primary, replaced]

end StoreTable

/-- A call of `AddRecord` or of `DelRecord`, with any record. -/
inductive RecordCall where
  | addRecord (name : TableName) (record : name.Record) (upsert : Bool)
  | delRecord (name : TableName) (record : name.Record)

namespace RecordCall

def name : RecordCall → TableName
  | .addRecord name _ _ | .delRecord name _ => name

def id : RecordCall → ℕ
  | .addRecord name record _ | .delRecord name record => name.table.id record

/-- The transaction after the call; a call that refuses its record, or throws, adds nothing. -/
def build (db : DB) (transaction : TransactionT) : RecordCall → TransactionT
  | .addRecord name record upsert =>
    match name.table.addRecord db record transaction upsert with
    | .ok (_, transaction) => transaction
    | .error _ => transaction
  | .delRecord name record => (name.table.delRecord record transaction).2

/-- What the call appends. -/
def items (db : DB) (call : RecordCall) : List TransItemT := (call.build db {}).item

theorem build_eq (db : DB) (transaction : TransactionT) (call : RecordCall) :
    call.build db transaction = transaction.append (call.items db) := by
  cases call with
  | addRecord name record upsert =>
    rcases name.table.addRecord_appends db record upsert with ⟨e, answer⟩ | answer | answer
    · simp [build, items, answer]
    · simp [build, items, answer]
    · simp [build, items, answer]
  | delRecord name record =>
    simp only [build, items, StoreTable.delRecord_eq]
    split <;> simp

/-- An item lies under the call's own primary key or under a secondary key of its table. -/
theorem items_key {db : DB} {call : RecordCall} {item : TransItemT} (member : item ∈ call.items db) :
    item.key = encodePrimaryKey call.name.table.primaryKey call.id ∨
      ∃ keytype ∈ call.name.table.secondaryKeys, HasType keytype item.key := by
  cases call with
  | addRecord name record upsert =>
    rcases name.table.addRecord_appends db record upsert with ⟨e, answer⟩ | answer | answer
    · simp [items, build, answer] at member
    · simp [items, build, answer] at member
    · simp only [items, build, answer, TransactionT.append_item, List.nil_append] at member
      rcases List.mem_append.mp member with secondary | primary
      · obtain ⟨keytype, inKeys, ofKey⟩ := List.mem_flatMap.mp secondary
        exact .inr ⟨keytype, inKeys, name.table.keyItems_hasType inKeys item ofKey⟩
      · obtain rfl := List.mem_singleton.mp primary
        exact .inl rfl
  | delRecord name record =>
    simp only [items, build, StoreTable.delRecord_eq] at member
    split at member
    · exact (List.not_mem_nil member).elim
    · rcases List.mem_cons.mp member with rfl | secondary
      · exact .inl rfl
      · obtain ⟨keytype, inKeys, rfl⟩ := List.mem_map.mp secondary
        exact .inr ⟨keytype, inKeys, StoreTable.hasType_getKey inKeys record false⟩

end RecordCall

/-- The transaction that the calls build, each against the database it is made on. -/
def buildAll (calls : List (DB × RecordCall)) : TransactionT :=
  calls.foldl (fun transaction call => call.2.build call.1 transaction) {}

theorem buildAll_item (calls : List (DB × RecordCall)) :
    (buildAll calls).item = calls.flatMap fun call => call.2.items call.1 := by
  rw [buildAll, TransactionT.foldl_append fun transaction (call : DB × RecordCall) =>
    call.2.build_eq call.1 transaction]
  exact List.nil_append _

end Identt.Store
