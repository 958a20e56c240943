import Identt.Lib.PrefixScan
import Identt.Store.StoreBase

/-! # Tables with secondary indexes (`StoreTable`)

A table stores each record under its primary key and, for every unique and every non-unique index
key type, a node with the record's identifier under the record's key of that type. The record type,
its `GetKey` and its serialisation are the template parameters; what every instance of them owes
the template is part of the structure. Functions read the database of the moment and append to a
transaction; nothing is written before the transaction is committed.
-/

namespace Identt.Store

/-- A table of records of one message type, with what its `GetKey` guarantees. -/
structure StoreTable (T : Type) where
  primaryKey : KeyTypeE
  /-- A `std::set`, listed in its iteration order. -/
  uniqueKeys : List KeyTypeE
  indexKeys : List KeyTypeE
  getKey : T → KeyTypeE → Bool → Bytes
  id : T → ℕ
  setId : T → ℕ → T
  notfound : T → Bool
  serialize : T → Value
  parse : Value → Option T
  getKey_primary : ∀ record pre, getKey record primaryKey pre = encodePrimaryKey primaryKey (id record)
  getKey_type : ∀ record keytype pre, keytype ∈ uniqueKeys ++ indexKeys →
    HasType keytype (getKey record keytype pre)
  getKey_index : ∀ left right keytype, keytype ∈ indexKeys →
    getKey left keytype false = getKey right keytype false → id left = id right
  keyTypes_nodup : (primaryKey :: (uniqueKeys ++ indexKeys)).Nodup
  id_setId : ∀ record n, id (setId record n) = n
  /-- Protobuf's promise, for records whose `string` fields are UTF-8. -/
  parse_serialize : ∀ record, parse (serialize record) = some record

attribute [simp] StoreTable.id_setId StoreTable.parse_serialize

/-- `AddTrans`; the value is left unset in a deletion. -/
def addTrans (trans : TransactionT) (key : Bytes) (value : Value) (toDel : Bool) : TransactionT :=
  { trans with item := trans.item ++ [⟨key, if toDel then .empty else value, toDel⟩] }

namespace StoreTable

variable {T : Type} (table : StoreTable T)

/-- The record type's `ParseFromString` on what the store holds under a key. -/
def parseStored : Stored → Option T
  | .data value => table.parse value
  | .log _ => none

/-- The common end of `GetOne`: replace the record by the one stored under its primary key. -/
def fetch (db : DB) (record : T) : Except Exn (Bool × T) :=
  match db.get? (table.getKey record table.primaryKey false) with
  | none => .ok (false, record)
  | some value =>
    match table.parseStored value with
    | none => .error (.badData "Record cannot be parsed")
    | some stored => .ok (true, stored)

/-- Whether a record was found, and the record as the call leaves it. -/
def getOne (db : DB) (record : T) (keytype : KeyTypeE) : Except Exn (Bool × T) :=
  if keytype = table.primaryKey then table.fetch db record
  else if keytype ∈ table.uniqueKeys ∨ keytype ∈ table.indexKeys then
    match (db.get? (table.getKey record keytype false)).bind NodeT.parse with
    | some node => table.fetch db (table.setId record node.id)
    | none => .ok (false, record)
  else .error (.badData "Keytype invalid")

/-- The loop of `GetKeysFromIndex` over what the iterator has left below the prefix. -/
def collectNodes (skip limit : ℕ) : ℕ → List (Bytes × Stored) → List NodeT
  | _, [] => []
  | counter, (_, value) :: rest =>
    if counter + 1 ≤ skip then collectNodes skip limit (counter + 1) rest
    else
      let node := (NodeT.parse value).getD default
      if counter + 1 = skip + limit then [node]
      else node :: collectNodes skip limit (counter + 1) rest

/-- The nodes of the index entries that start with the record's prefix key. The source's flag, that
at least one was found, is that the list is not empty. -/
def getKeysFromIndex (db : DB) (keytype : KeyTypeE) (record : T) (skip limit : ℕ) : List NodeT :=
  if keytype ∈ table.uniqueKeys ∨ keytype ∈ table.indexKeys then
    let key := table.getKey record keytype true
    if key.length ≤ keyIdLen then []
    else collectNodes skip limit 0 (db.scan key)
  else []

/-- The loop of `GetMany` over the nodes; `record` is the scratch record of the source. -/
def fetchMany (db : DB) : T → OrderedMap ℕ T → List NodeT → Except Exn (OrderedMap ℕ T)
  | _, records, [] => .ok records
  | record, records, node :: rest =>
    if node.keytype ≠ table.primaryKey then .error (.badData "Record is bad ")
    else
      match db.get? (table.getKey (table.setId record node.id) table.primaryKey false) with
      | none => .error (.badData "Record is missing ")
      | some value =>
        match table.parseStored value with
        | none => .error (.badData "Record cannot be parsed")
        | some stored => fetchMany db stored (records.put (table.id stored) stored) rest

/-- All records of an index by prefix, added to the map of records by identifier. -/
def getMany [Inhabited T] (db : DB) (refer : T) (records : OrderedMap ℕ T) (keytype : KeyTypeE) (skip limit : ℕ) :
    Except Exn (Bool × OrderedMap ℕ T) :=
  if keytype = table.primaryKey then
    .error (.badCode "This cannot be used for primary key")
  else
    match table.getKeysFromIndex db keytype refer skip limit with
    | [] => .ok (false, records)
    | nodes => (table.fetchMany db default records nodes).map (true, ·)

/-- `GetSecondaryValue`: the node stored under the record's key of an index. -/
def getSecondaryValue (db : DB) (record : T) (keytype : KeyTypeE) : Option NodeT :=
  if keytype ∈ table.uniqueKeys ∨ keytype ∈ table.indexKeys then
    (db.get? (table.getKey record keytype false)).bind NodeT.parse
  else none

/-- Whether another record holds the record's unique key. -/
def clashes (db : DB) (record : T) (keytype : KeyTypeE) : Bool :=
  match table.getSecondaryValue db record keytype with
  | some node => table.id record ≠ node.id
  | none => false

/-- The node `AddRecord` stores under every index key of a record. -/
def dumpNode (record : T) : Value := .node ⟨table.primaryKey, table.id record⟩

/-- One round of the index loops of `AddRecord`: drop the old key and put the new one, or keep both
alone when they are the same. -/
def moveKey (old : Option T) (record : T) (trans : TransactionT) (keytype : KeyTypeE) : TransactionT :=
  let new := table.getKey record keytype false
  match old with
  | some old =>
    let stale := table.getKey old keytype false
    if stale ≠ new then
      addTrans (addTrans trans stale (table.dumpNode record) true) new (table.dumpNode record) false
    else trans
  | none => addTrans trans new (table.dumpNode record) false

/-- Check the record against the database and append its items to the transaction. -/
def addRecord [Inhabited T] (db : DB) (record : T) (trans : TransactionT) (upsert : Bool) :
    Except Exn (Bool × TransactionT) := do
  if table.notfound record then return (false, trans)
  if table.id record = 0 then return (false, trans)
  let (oldRecordExists, old) ← table.getOne db (table.setId default (table.id record)) table.primaryKey
  if oldRecordExists && !upsert then return (false, trans)
  if table.uniqueKeys.any (table.clashes db record) then return (false, trans)
  let old := if oldRecordExists then some old else none
  let trans := table.uniqueKeys.foldl (table.moveKey old record) trans
  let trans := table.indexKeys.foldl (table.moveKey old record) trans
  return (true, addTrans trans (table.getKey record table.primaryKey false) (table.serialize record) false)

/-- Append the deletion of the record and of its index entries. -/
def delRecord (record : T) (trans : TransactionT) : Bool × TransactionT :=
  if table.notfound record then (false, trans)
  else
    let drop (trans : TransactionT) (keytype : KeyTypeE) :=
      addTrans trans (table.getKey record keytype false) .empty true
    let trans := addTrans trans (encodePrimaryKey table.primaryKey (table.id record)) .empty true
    let trans := table.uniqueKeys.foldl drop trans
    (true, table.indexKeys.foldl drop trans)

/-- The loop of `ScanTable`: parse and hand each record to the callback, at most `limit` of them;
a limit of zero is never reached. -/
def scanRecords {σ : Type} (limit : ℕ) (func : σ → T → σ) :
    ℕ → σ → List (Bytes × Stored) → Except Exn σ
  | _, state, [] => .ok state
  | counter, state, (_, value) :: rest =>
    match table.parseStored value with
    | none => .error (.badData "Record cannot be parsed")
    | some record =>
      if counter + 1 = limit then .ok (func state record)
      else scanRecords limit func (counter + 1) (func state record) rest

/-- Visit the records of the table in the order of their keys, from `startid` on. -/
def scanTable {σ : Type} (db : DB) (startid limit : ℕ) (func : σ → T → σ) (state : σ) : Except Exn σ :=
  let start := encodePrimaryKey table.primaryKey (if 0 < startid then startid else 1)
  table.scanRecords limit func 0 state
    ((db.seek start).takeWhile fun entry => (encodeKeyType table.primaryKey).isPrefixOf entry.1)

end StoreTable

/-- The batch of puts and deletions that `CommitData` makes of a transaction's items. -/
def TransItemT.batchOp (item : TransItemT) : BatchOp Bytes Stored :=
  if item.toDel then .delete item.key else .put item.key (.data item.value)

@[simp] theorem TransItemT.batchOp_key (item : TransItemT) : item.batchOp.key = item.key := by
  unfold batchOp
  split <;> rfl

/-- The data after the items of a transaction were written. -/
def applyItems (db : DB) (items : List TransItemT) : DB := db.write (items.map TransItemT.batchOp)

@[simp] theorem applyItems_nil (db : DB) : applyItems db [] = db := rfl

theorem applyItems_append (db : DB) (first second : List TransItemT) :
    applyItems db (first ++ second) = applyItems (applyItems db first) second := by
  simp only [applyItems, List.map_append, OrderedMap.write_append]

theorem applyItems_of_untouched {db : DB} {items : List TransItemT} {key : Bytes}
    (untouched : ∀ item ∈ items, item.key ≠ key) : (applyItems db items).get? key = db.get? key := by
  apply OrderedMap.get?_write_of_untouched
  simpa using untouched

theorem applyItems_of_touched {items : List TransItemT} {key : Bytes} (touched : ∃ item ∈ items, item.key = key)
    (db db' : DB) : (applyItems db items).get? key = (applyItems db' items).get? key := by
  apply OrderedMap.get?_write_of_touched
  obtain ⟨item, member, here⟩ := touched
  exact ⟨item.batchOp, List.mem_map_of_mem member, by rw [TransItemT.batchOp_key, here]⟩

theorem applyItems_of_deleted {db : DB} {items : List TransItemT} {key : Bytes}
    (touched : ∃ item ∈ items, item.key = key) (deletes : ∀ item ∈ items, item.toDel = true) :
    (applyItems db items).get? key = none := by
  apply OrderedMap.get?_write_of_agree
  · obtain ⟨item, member, here⟩ := touched
    exact ⟨item.batchOp, List.mem_map_of_mem member, by rw [TransItemT.batchOp_key, here]⟩
  · intro op member _
    obtain ⟨item, inItems, rfl⟩ := List.mem_map.mp member
    simp [TransItemT.batchOp, deletes item inItems, BatchOp.result]

/-- A key for which all items put one value is bound to it. -/
theorem applyItems_of_put {db : DB} {items : List TransItemT} {key : Bytes} {value : Value}
    (touched : ∃ item ∈ items, item.key = key) (puts : ∀ item ∈ items, item.key = key → item = ⟨key, value, false⟩) :
    (applyItems db items).get? key = some (.data value) := by
  apply OrderedMap.get?_write_of_agree
  · obtain ⟨item, member, here⟩ := touched
    exact ⟨item.batchOp, List.mem_map_of_mem member, by rw [TransItemT.batchOp_key, here]⟩
  · intro op member here
    obtain ⟨item, inItems, rfl⟩ := List.mem_map.mp member
    rw [TransItemT.batchOp_key] at here
    rw [puts item inItems here]
    rfl

theorem applyItems_congr {db db' : DB} {key : Bytes} (same : db.get? key = db'.get? key)
    (items : List TransItemT) : (applyItems db items).get? key = (applyItems db' items).get? key :=
  OrderedMap.get?_write_congr same _

end Identt.Store
