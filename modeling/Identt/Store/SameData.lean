import Identt.Store.BlobDataService
import Identt.Store.LookupService
import Identt.Store.Represents
import Identt.Store.Tables

/-! # Reading the same data

Whatever reads through a table reads keys of the table's types, and none of the log's. So two stores that
differ in their logs alone answer every read alike.
-/

namespace Identt.Store

/-- The stores differ in their logs alone. -/
def SameData (db db' : DB) : Prop := ∀ key, ¬ HasType .kLogNode key → db.get? key = db'.get? key

section Table

variable {T : Type} {table : StoreTable T} {db db' : DB}

/-- The table keeps its records off the log's keys. -/
def OffLogTable (table : StoreTable T) : Prop := KeyTypeE.kLogNode ∉ table.primaryKey :: table.secondaryKeys

theorem SameData.get? (same : SameData db db') (off : OffLogTable table) {keytype : KeyTypeE} {key : Bytes}
    (member : keytype ∈ table.primaryKey :: table.secondaryKeys) (ofType : HasType keytype key) :
    db.get? key = db'.get? key := by
  apply same
  intro ofLog
  exact off (ofLog.unique ofType ▸ member)

theorem SameData.get?_primary (same : SameData db db') (off : OffLogTable table) (record : T) (pre : Bool) :
    db.get? (table.getKey record table.primaryKey pre) = db'.get? (table.getKey record table.primaryKey pre) := by
  rw [table.getKey_primary]
  exact same.get? off (List.mem_cons_self ..) (hasType_encodePrimaryKey ..)

theorem SameData.fetch (same : SameData db db') (off : OffLogTable table) (record : T) :
    table.fetch db record = table.fetch db' record := by
  rw [StoreTable.fetch, same.get?_primary off, StoreTable.fetch]

theorem SameData.getOne (same : SameData db db') (off : OffLogTable table) (record : T) (keytype : KeyTypeE) :
    table.getOne db record keytype = table.getOne db' record keytype := by
  rw [StoreTable.getOne, StoreTable.getOne, same.fetch off]
  by_cases secondary : keytype ∈ table.uniqueKeys ∨ keytype ∈ table.indexKeys
  · have member : keytype ∈ table.secondaryKeys := StoreTable.mem_secondaryKeys.mpr secondary
    rw [same.get? off (List.mem_cons_of_mem _ member) (StoreTable.hasType_getKey member record false)]
    simp only [same.fetch off]
  · rw [if_neg secondary, if_neg secondary]

theorem SameData.scan (same : SameData db db') (off : OffLogTable table) {keytype : KeyTypeE} {front : Bytes}
    (member : keytype ∈ table.primaryKey :: table.secondaryKeys) (ofType : HasType keytype front) :
    db.scan front = db'.scan front := by
  apply eq_of_sorted (db.scan_sorted front) (db'.scan_sorted front)
  intro entry
  rw [OrderedMap.mem_scan, OrderedMap.mem_scan]
  apply and_congr_left
  intro begins
  rw [same.get? off member (ofType.trans begins)]

theorem SameData.getKeysFromIndex (same : SameData db db') (off : OffLogTable table) (keytype : KeyTypeE) (record : T)
    (skip limit : ℕ) :
    table.getKeysFromIndex db keytype record skip limit = table.getKeysFromIndex db' keytype record skip limit := by
  rw [StoreTable.getKeysFromIndex, StoreTable.getKeysFromIndex]
  by_cases secondary : keytype ∈ table.uniqueKeys ∨ keytype ∈ table.indexKeys
  · have member : keytype ∈ table.secondaryKeys := StoreTable.mem_secondaryKeys.mpr secondary
    simp only [same.scan off (List.mem_cons_of_mem _ member) (StoreTable.hasType_getKey member record true)]
  · rw [if_neg secondary, if_neg secondary]

theorem SameData.fetchMany (same : SameData db db') (off : OffLogTable table) (nodes : List NodeT) (record : T)
    (records : OrderedMap ℕ T) : table.fetchMany db record records nodes = table.fetchMany db' record records nodes := by
  induction nodes generalizing record records with
  | nil => rfl
  | cons node rest ih =>
    rw [StoreTable.fetchMany, StoreTable.fetchMany, same.get?_primary off]
    simp only [ih]

theorem SameData.getMany [Inhabited T] (same : SameData db db') (off : OffLogTable table) (refer : T)
    (records : OrderedMap ℕ T) (keytype : KeyTypeE) (skip limit : ℕ) :
    table.getMany db refer records keytype skip limit = table.getMany db' refer records keytype skip limit := by
  rw [StoreTable.getMany, StoreTable.getMany, same.getKeysFromIndex off]
  simp only [same.fetchMany off]

end Table

open LookupService BlobDataService AccessKeyService ThreePidService Query

/-- The nodes answer alike what a node reads by itself: lookups, with and without a list, blobs, access keys, and
whether an address is validated. -/
structure ReadsAlike (st st' : SharedTable) : Prop where
  lookup : ∀ query result, lookupGlobal st query result = lookupGlobal st' query result
  bulkLookup : ∀ blact start last, bulkLookupGlobal st blact start last = bulkLookupGlobal st' blact start last
  getBlobData : ∀ bdata, getBlobDataAction st bdata = getBlobDataAction st' bdata
  verifyAccessKey : ∀ akey, verifyAccessKeyAction st akey = verifyAccessKeyAction st' akey
  getValidated3pid : ∀ env gva, getValidated3pidAction st env gva = getValidated3pidAction st' env gva

theorem offLog_globalAssoc : OffLogTable globalAssocTable := TableName.kLogNode_notMem .globalAssoc

theorem offLog_accessKey : OffLogTable accessKeyTable := TableName.kLogNode_notMem .accessKey

theorem offLog_blobStore : OffLogTable blobStoreTable := TableName.kLogNode_notMem .blobStore

theorem offLog_validationSession : OffLogTable validationSessionTable :=
  TableName.kLogNode_notMem .validationSession

theorem SameData.presentedKey {st st' : SharedTable} (same : SameData st.maindb st'.maindb) (presented : Bytes) :
    presentedKey st presented = presentedKey st' presented := by
  simp only [BlobDataService.presentedKey, same.getOne offLog_accessKey]

/-- Nodes with the same data answer alike. -/
theorem SameData.readsAlike {st st' : SharedTable} (same : SameData st.maindb st'.maindb) : ReadsAlike st st' where
  lookup query result := by
    rw [lookupGlobal, same.getMany offLog_globalAssoc, lookupGlobal]
  bulkLookup blact start last := by
    have gathers : gatherGlobal st.maindb = gatherGlobal st'.maindb := by
      funext assocMap query
      rw [gatherGlobal, same.getMany offLog_globalAssoc, gatherGlobal]
    rw [bulkLookupGlobal, gathers, bulkLookupGlobal]
  getBlobData bdata := by
    rw [getBlobDataAction, same.presentedKey, getBlobDataAction]
    simp only [same.getOne offLog_blobStore]
  verifyAccessKey akey := by
    rw [verifyAccessKeyAction, same.presentedKey, verifyAccessKeyAction]
  getValidated3pid env gva := by
    have checks : checkSession st env gva.subtok = checkSession st' env gva.subtok := by
      simp only [checkSession, validatedSession, same.getOne offLog_validationSession]
    rw [getValidated3pidAction, checks, getValidated3pidAction]

end Identt.Store
