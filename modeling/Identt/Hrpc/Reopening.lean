import Identt.Hrpc.Promotion
import Identt.Store.RecordCalls

/-! # Opening the stores that a node left

Whatever transactions of `AddRecord` and `DelRecord` a node committed, and whichever of its writes failed,
its stores hold nothing but fences, keys of the tables and keys of the log. Opening such a store steps
back onto the largest identifier of every key type, so it succeeds and reads the counters off.
-/

namespace Identt.Hrpc

open Store StoreTrans

/-- The keys that commits and `Initialize` write. -/
inductive StoreKey : Bytes → Prop
  | fence (keytype : KeyTypeE) : StoreKey (encodePrimaryKey keytype 0)
  | primary (name : TableName) {n : ℕ} (word : n < 2 ^ 64) : StoreKey (encodePrimaryKey name.table.primaryKey n)
  | secondary (name : TableName) {keytype : KeyTypeE} (member : keytype ∈ name.table.secondaryKeys) {key : Bytes}
      (ofType : HasType keytype key) : StoreKey key
  | log {n : ℕ} (word : n < 2 ^ 64) : StoreKey (logKey n)

def StoreKeys (db : DB) : Prop := ∀ key value, db.get? key = some value → StoreKey key

/-- The transaction was built by calls of `AddRecord` and `DelRecord`; an identifier has 64 bits. -/
def Assembled (transaction : TransactionT) : Prop :=
  ∃ calls : List (DB × RecordCall), (∀ call ∈ calls, call.2.id < 2 ^ 64) ∧ transaction.item = (buildAll calls).item

/-- What is committed was built by calls, and the log counter stays a machine word. -/
def Ordinary (st : SharedTable) : NodeStep → Prop
  | .call _ transaction _ | .stop _ transaction _ => Assembled transaction ∧ st.logcounter + 1 < 2 ^ 64
  | .restart => True

/-- The data store of a node and its log store, if that is another one. -/
def OnDisk (st : SharedTable) (db : DB) : Prop := db = st.maindb ∨ st.logdb = some db

/-- What opening a store has to give: the largest identifier of a stored record, the largest identifier
in the log, zero where there is none, and the store with all it held. -/
structure ReadsLargest (db : DB) (opened : DB × ℕ × ℕ) : Prop where
  record : IsGreatest {n | n = 0 ∨ Present db n} opened.2.1
  log : IsGreatest {n | n = 0 ∨ (db.get? (logKey n)).isSome} opened.2.2
  kept : ∀ key value, db.get? key = some value → opened.1.get? key = some value

theorem Assembled.storeKey {transaction : TransactionT} (assembled : Assembled transaction) {item : TransItemT}
    (member : item ∈ transaction.item) : StoreKey item.key := by
  obtain ⟨calls, words, items⟩ := assembled
  rw [items, buildAll_item] at member
  obtain ⟨⟨db, call⟩, inCalls, ofCall⟩ := List.mem_flatMap.mp member
  rcases RecordCall.items_key ofCall with primary | ⟨keytype, inKeys, ofType⟩
  · rw [primary]
    exact .primary call.name (words _ inCalls)
  · exact .secondary call.name inKeys ofType

namespace StoreKeys

variable {db : DB}

theorem empty : StoreKeys .empty := fun _ _ has => by contradiction

theorem put (keys : StoreKeys db) {key : Bytes} (isKey : StoreKey key) (value : Stored) :
    StoreKeys (db.put key value) := by
  intro key' value' has
  by_cases same : key' = key
  · rwa [same]
  · rw [OrderedMap.get?_put_of_ne _ _ same] at has
    exact keys key' value' has

theorem applyItems (keys : StoreKeys db) {items : List TransItemT} (areKeys : ∀ item ∈ items, StoreKey item.key) :
    StoreKeys (applyItems db items) := by
  intro key value has
  by_cases touched : ∃ item ∈ items, item.key = key
  · obtain ⟨item, member, rfl⟩ := touched
    exact areKeys item member
  · rw [applyItems_of_untouched fun item member here => touched ⟨item, member, here⟩] at has
    exact keys key value has

theorem putFences (keys : StoreKeys db) : StoreKeys (StoreLevel.putFences db) := by
  intro key value has
  rw [StoreLevel.get?_putFences] at has
  rcases Option.or_eq_some_iff.mp has with stored | ⟨_, fence⟩
  · exact keys key value stored
  · split at fence
    · next isFence =>
      obtain ⟨keytype, _, rfl⟩ := isFence
      exact .fence keytype
    · contradiction

/-- Every key is one that opening the store can read. -/
theorem wellKeyed (keys : StoreKeys db) : WellKeyed db := by
  -- a secondary key's type is none of those between the fences
  have notSecondary (name : TableName) : ∀ keytype ∈ name.table.secondaryKeys,
      ∀ pair ∈ StoreLevel.dataTypes, pair.2 ≠ keytype := by
    cases name <;> decide
  refine ⟨fun key value has => ?_, fun pair member key value ofType has => ?_, fun n value has => ?_⟩
  · cases keys key value has with
    | fence keytype => exact ⟨keytype, hasType_encodePrimaryKey ..⟩
    | primary name => exact ⟨_, hasType_encodePrimaryKey ..⟩
    | secondary name member ofType => exact ⟨_, ofType⟩
    | log => exact ⟨_, hasType_logKey _⟩
  · cases keys key value has with
    | fence keytype =>
      rw [ofType.unique (hasType_encodePrimaryKey ..)]
      exact ⟨0, by omega, rfl⟩
    | @primary name n word =>
      rw [ofType.unique (hasType_encodePrimaryKey ..)]
      exact ⟨n, word, rfl⟩
    | secondary name inKeys ofKey => exact (notSecondary name _ inKeys pair member (ofType.unique ofKey)).elim
    | @log n word =>
      rw [ofType.unique (hasType_logKey n)]
      exact ⟨n, word, rfl⟩
  · have ofType := hasType_encodePrimaryKey .kNoNode n
    generalize here : encodePrimaryKey .kNoNode n = key at has ofType
    cases keys key value has with
    | fence keytype =>
      rw [← ofType.unique (hasType_encodePrimaryKey keytype 0)] at here
      exact encodePrimaryKey_inj.mp here
    | primary name =>
      have noTable : name.table.primaryKey ≠ .kNoNode := by cases name <;> decide
      exact (noTable ((hasType_encodePrimaryKey ..).unique ofType)).elim
    | secondary name inKeys ofKey =>
      exact (notSecondary name _ inKeys (.kInviteToken, .kNoNode) (by decide) (ofType.unique ofKey)).elim
    | log => exact absurd (ofType.unique (hasType_logKey _)) (by decide)

theorem logKey (keys : StoreKeys db) {key : Bytes} {value : Stored} (ofLog : HasType .kLogNode key)
    (has : db.get? key = some value) : ∃ n < 2 ^ 64, key = StoreTrans.logKey n := by
  cases keys key value has with
  | fence keytype =>
    rw [← ofLog.unique (hasType_encodePrimaryKey keytype 0)]
    exact ⟨0, by omega, rfl⟩
  | primary name =>
    have noTable : name.table.primaryKey ≠ .kLogNode := by cases name <;> decide
    exact (noTable ((hasType_encodePrimaryKey ..).unique ofLog)).elim
  | secondary name inKeys ofKey =>
    exact (name.kLogNode_notMem (ofLog.unique ofKey ▸ List.mem_cons_of_mem _ inKeys)).elim
  | log word => exact ⟨_, word, rfl⟩

/-- Opening a store of such keys succeeds and reads the largest identifiers. -/
theorem initializeStore (keys : StoreKeys db) :
    ∃ opened, StoreLevel.initializeStore db 0 0 = .ok opened ∧ ReadsLargest db opened := by
  have keyed := keys.wellKeyed
  have fenced (n : ℕ) (positive : n ≠ 0) :
      (StoreLevel.putFences db).get? (StoreTrans.logKey n) = db.get? (StoreTrans.logKey n) :=
    StoreLevel.get?_putFences_primary db .kLogNode positive
  obtain ⟨lkey, readLog, present, greatest⟩ := lastId_log (fun key value ofLog has => keys.putFences.logKey ofLog has)
    (StoreLevel.putFences_fence db (by decide)) (StoreLevel.putFences_fence db (by decide))
    "Fixed record K_MAXNODE missing" "Zero record before K_MAXNODE missing"
  have reads (pair : KeyTypeE × KeyTypeE) (member : pair ∈ StoreLevel.dataTypes) :
      ∃ id, StoreLevel.lastId (StoreLevel.putFences db) pair.1 pair.2 "Some fixed records missing"
        "Some zero records missing" = .ok id := by
    obtain ⟨n, read, _⟩ := lastId_of_wellKeyed keyed member "Some fixed records missing" "Some zero records missing"
    exact ⟨some n, read⟩
  obtain ⟨pkey, readPkey⟩ := lastPkey_total 0 reads
  refine ⟨(StoreLevel.putFences db, pkey, lkey), ?_, keyed.lastPkey_isGreatest readPkey, ⟨?_, ?_⟩, ?_⟩
  · simp [StoreLevel.initializeStore, readLog, readPkey, bind, Except.bind, pure, Except.pure]
  · rcases Nat.eq_zero_or_pos lkey with zero | positive
    · exact .inl zero
    · exact .inr (by rwa [← fenced lkey (by omega)])
  · rintro n (rfl | stored)
    · exact Nat.zero_le _
    · obtain ⟨value, has⟩ := Option.isSome_iff_exists.mp stored
      obtain ⟨m, word, here⟩ := keys.logKey (hasType_logKey n) has
      obtain rfl : n = m := logKey_inj.mp here
      exact greatest n word (by rw [StoreLevel.get?_putFences, has]; rfl)
  · intro key value has
    rw [StoreLevel.get?_putFences, has, Option.some_or]

end StoreKeys

/-- Every store of a node holds such keys only. -/
def KeysOnDisk (st : SharedTable) : Prop := ∀ db, OnDisk st db → StoreKeys db

namespace KeysOnDisk

variable {st : SharedTable}

theorem afterLog (keys : KeysOnDisk st) {record : TransactionT} (word : record.id < 2 ^ 64) :
    KeysOnDisk (afterLog st record) := by
  intro db onDisk
  rw [OnDisk, Identt.afterLog, SharedTable.putLog] at onDisk
  split at onDisk
  · next logdb isSeparate =>
    rcases onDisk with rfl | isLog
    · exact keys _ (.inl rfl)
    · obtain rfl := Option.some.inj isLog
      exact (keys logdb (.inr isSeparate)).put (.log word) _
  · next shared =>
    rcases onDisk with rfl | isLog
    · exact (keys _ (.inl rfl)).put (.log word) _
    · exact keys db (.inr isLog)

theorem commit (keys : KeysOnDisk st) {transaction : TransactionT} (assembled : Assembled transaction)
    (word : st.logcounter + 1 < 2 ^ 64) (env : CommitEnv) (isMaster : Bool) :
    KeysOnDisk (commit env st transaction isMaster).2 := by
  have logged : KeysOnDisk (Identt.afterLog st (numbered env st transaction isMaster)) := keys.afterLog word
  rcases commit_cases env st transaction isMaster with ⟨_, same⟩ | ⟨_, _, same⟩ | ⟨_, _, _, same⟩ |
    ⟨_, _, _, _, lastslave, dbcache, after⟩
  · rw [same]
    exact keys
  · rw [same]
    exact keys
  · rw [same]
    exact logged
  · rw [after]
    rintro db (rfl | isLog)
    · exact (logged _ (.inl rfl)).applyItems fun item member => assembled.storeKey member
    · exact logged db (.inr isLog)

theorem restart (keys : KeysOnDisk st) : KeysOnDisk (restart st) := by
  rw [Identt.restart]
  split
  · next st' init =>
    obtain ⟨_, _, _, _, maindb, logdb, _⟩ := workServerInit_eq init
    rintro db (rfl | isLog)
    · rw [maindb]
      exact (keys _ (.inl rfl)).putFences
    · rw [logdb] at isLog
      obtain ⟨before, has, rfl⟩ := Option.map_eq_some_iff.mp isLog
      exact (keys before (.inr has)).putFences
  · exact keys

theorem step (keys : KeysOnDisk st) {label : NodeStep} (ordinary : Ordinary st label) :
    KeysOnDisk (nodeStep st label) := by
  cases label with
  | call env transaction isMaster => exact keys.commit ordinary.1 ordinary.2 env isMaster
  | stop now transaction isMaster =>
    apply restart
    by_cases empty : transaction.item = []
    · rw [commitLog, if_pos empty]
      exact keys
    · rw [commitLog_eq _ st isMaster empty]
      exact keys.afterLog ordinary.2
  | restart => exact keys.restart

end KeysOnDisk

/-- Every store that commits of any such transactions leave, on a node that began with empty stores and
whose writes may fail and whose process may stop at any time, opens with the largest identifiers. -/
theorem initializeStore_reads_largest {start : SharedTable} (empty : ∀ db, OnDisk start db → db = .empty)
    {labels : List NodeStep} (ordinary : Run.Guarded nodeStep Ordinary start labels) {db : DB}
    (onDisk : OnDisk (Run.final nodeStep start labels) db) :
    ∃ opened, StoreLevel.initializeStore db 0 0 = .ok opened ∧ ReadsLargest db opened := by
  have begins : KeysOnDisk start := by
    intro db onDisk
    rw [empty db onDisk]
    exact .empty
  have kept (st : SharedTable) (label : NodeStep) (keys : KeysOnDisk st) (ordinary : Ordinary st label) :
      KeysOnDisk (nodeStep st label) := keys.step ordinary
  have ends := Run.invariant_of_guarded kept begins ordinary labels.length
  rw [List.take_length] at ends
  exact (ends db onDisk).initializeStore

/-- A node that starts, stores a peer and then deletes the fence of the peers. -/
def deletedFence : List NodeStep :=
  let peer : PeerT := { id := 2, name := ascii "a" }
  [.restart, .call { now := 5 } (buildAll [(.empty, .addRecord .peer peer false)]) true,
    .call { now := 6 } (buildAll [(.empty, .delRecord .peer { id := 0 })]) true]

theorem initializeStore_reads_largest_deletedFence :
    ∃ opened, StoreLevel.initializeStore (Run.final nodeStep {} deletedFence).maindb 0 0 = .ok opened ∧
      ReadsLargest (Run.final nodeStep {} deletedFence).maindb opened := by
  have assembled (call : RecordCall) (word : call.id < 2 ^ 64) : Assembled (buildAll [(.empty, call)]) := by
    refine ⟨[(.empty, call)], fun other member => ?_, rfl⟩
    obtain rfl := List.mem_singleton.mp member
    exact word
  refine @initializeStore_reads_largest {} ?_ deletedFence ?_ _ (.inl rfl)
  · rintro db (rfl | isLog)
    · rfl
    · contradiction
  · refine Run.guarded_cons.mpr ⟨trivial, Run.guarded_cons.mpr ⟨⟨assembled _ (by decide), by decide +kernel⟩,
      Run.guarded_cons.mpr ⟨⟨assembled _ (by decide), by decide +kernel⟩, ?_⟩⟩⟩
    exact fun i label here => by contradiction

end Identt.Hrpc
