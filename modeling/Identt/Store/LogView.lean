import Identt.Store.StoreTrans

/-! # The log of a node, and its data

What a commit does, said once: the log is a partial map from identifiers to transactions, the data is
the store without the log's keys, and a commit that gets through adds one transaction at the next
identifier and applies its items. Replication and recovery are stated in these terms.
-/

namespace Identt

open Store StoreTrans

/-- The log store holds what a commit writes under the key of its identifier, and maybe the fence. -/
def LogOf (st : SharedTable) : Prop :=
  ∀ key value, HasType .kLogNode key → st.logStore.get? key = some value →
    (key = logKey 0 ∧ value = .data .empty) ∨
    ∃ record, value = .log record ∧ key = logKey record.id ∧ 1 ≤ record.id ∧ record.id ≤ st.logcounter

/-- The transaction with an identifier. -/
def logEntry (st : SharedTable) (id : ℕ) : Option TransactionT :=
  (st.logStore.get? (logKey id)).bind TransactionT.parse

/-- The transactions with identifiers from one to `last`, in the order of their identifiers. -/
def logUpTo (st : SharedTable) (last : ℕ) : List TransactionT :=
  (List.range last).filterMap fun id => logEntry st (id + 1)

/-- Apply transactions one after the other. -/
def replay (db : DB) (log : List TransactionT) : DB :=
  log.foldl (fun db record => applyItems db record.item) db

/-- A key of the data store that the log does not use. -/
def OffLog (st : SharedTable) (key : Bytes) : Prop := st.logdb.isSome ∨ ¬ HasType .kLogNode key

/-- The node's data is the given one. -/
def HasData (st : SharedTable) (db : DB) : Prop :=
  ∀ key, OffLog st key → st.maindb.get? key = db.get? key

/-- The node's data is its own log, replayed on `base`. -/
def Replayed (base : DB) (st : SharedTable) : Prop := HasData st (replay base (logUpTo st st.logcounter))

/-- The items keep off the log's keys, as those of `AddRecord` and `DelRecord` do. -/
def ItemsOffLog (items : List TransItemT) : Prop := ∀ item ∈ items, ¬ HasType .kLogNode item.key

theorem hasType_logKey (id : ℕ) : HasType .kLogNode (logKey id) := hasType_encodePrimaryKey ..

@[simp] theorem logKey_inj {left right : ℕ} : logKey left = logKey right ↔ left = right :=
  encodePrimaryKey_inj

@[simp] theorem replay_nil (db : DB) : replay db [] = db := rfl

theorem replay_append (db : DB) (first second : List TransactionT) :
    replay db (first ++ second) = replay (replay db first) second := List.foldl_append

theorem replay_singleton (db : DB) (record : TransactionT) :
    replay db [record] = applyItems db record.item := rfl

/-- Replaying is applying all items in a row. -/
theorem replay_eq_applyItems (db : DB) (log : List TransactionT) :
    replay db log = applyItems db (log.flatMap TransactionT.item) := by
  induction log generalizing db with
  | nil => rfl
  | cons record rest ih =>
    rw [List.flatMap_cons, applyItems_append, ← ih]
    rfl

theorem logUpTo_succ (st : SharedTable) (last : ℕ) :
    logUpTo st (last + 1) = logUpTo st last ++ (logEntry st (last + 1)).toList := by
  rw [logUpTo, List.range_succ, List.filterMap_append]
  cases has : logEntry st (last + 1) <;> simp [logUpTo, has]

theorem logUpTo_congr {left right : SharedTable} {last : ℕ}
    (same : ∀ id, 1 ≤ id → id ≤ last → logEntry left id = logEntry right id) :
    logUpTo left last = logUpTo right last := by
  apply List.filterMap_congr
  intro id member
  have bound := List.mem_range.mp member
  exact same (id + 1) (by omega) (by omega)

theorem logEntry_eq_some_iff {st : SharedTable} (log : LogOf st) {id : ℕ} (positive : 1 ≤ id)
    {record : TransactionT} : logEntry st id = some record ↔ st.logStore.get? (logKey id) = some (.log record) := by
  rw [logEntry, Option.bind_eq_some_iff]
  constructor
  · rintro ⟨value, has, parsed⟩
    rcases log _ _ (hasType_logKey id) has with ⟨fence, _⟩ | ⟨stored, rfl, _⟩
    · have zero := logKey_inj.mp fence
      omega
    · rw [has]
      cases parsed
      rfl
  · intro has
    exact ⟨_, has, rfl⟩

theorem LogOf.entry {st : SharedTable} (log : LogOf st) {id : ℕ} (positive : 1 ≤ id) {record : TransactionT}
    (has : logEntry st id = some record) : record.id = id ∧ id ≤ st.logcounter := by
  rcases log _ _ (hasType_logKey id) ((logEntry_eq_some_iff log positive).mp has) with
    ⟨fence, _⟩ | ⟨stored, same, key, _, bound⟩
  · have zero := logKey_inj.mp fence
    omega
  · cases same
    have equal := logKey_inj.mp key
    omega

/-- The transaction that a commit writes to the log. -/
def numbered (env : CommitEnv) (st : SharedTable) (transaction : TransactionT) (isMaster : Bool) :
    TransactionT :=
  { transaction with id := st.logcounter + 1, ts := if isMaster then env.now else transaction.ts }

/-- The node after the log was written. -/
def afterLog (st : SharedTable) (record : TransactionT) : SharedTable :=
  { st with logcounter := st.logcounter + 1 }.putLog (logKey record.id) (.log record)

/-- The node after log and data were written. -/
def afterData (st : SharedTable) (record : TransactionT) : SharedTable :=
  { afterLog st record with maindb := applyItems (afterLog st record).maindb record.item }

theorem commitLog_eq (env : CommitEnv) (st : SharedTable) {transaction : TransactionT} (isMaster : Bool)
    (nonempty : transaction.item ≠ []) : commitLog env st transaction isMaster =
      (env.logPut, numbered env st transaction isMaster,
        if env.logPut then afterLog st (numbered env st transaction isMaster)
        else { st with logcounter := st.logcounter + 1 }) := by
  cases isMaster <;> simp [commitLog, nonempty, takeLogId, numbered, afterLog]

/-- Whether the call updates the cache without throwing. -/
def CacheAccepts (st : SharedTable) (transaction : TransactionT) : Prop :=
  st.lookupUsesLocal = true → StoreCache.Cachable transaction.item

theorem commit_nil (env : CommitEnv) (st : SharedTable) {transaction : TransactionT} (isMaster : Bool)
    (empty : transaction.item = []) : commit env st transaction isMaster = (.ok (), st) := if_pos empty

theorem commit_logFailed {env : CommitEnv} (st : SharedTable) {transaction : TransactionT} (isMaster : Bool)
    (nonempty : transaction.item ≠ []) (failed : env.logPut = false) :
    commit env st transaction isMaster =
      (.error (.badData "Insert failed for log"), { st with logcounter := st.logcounter + 1 }) := by
  simp [commit, nonempty, commitLog_eq env st isMaster nonempty, failed]

theorem commit_dataFailed {env : CommitEnv} (st : SharedTable) {transaction : TransactionT} (isMaster : Bool)
    (nonempty : transaction.item ≠ []) (logged : env.logPut = true) (failed : env.dataWrite = false) :
    commit env st transaction isMaster = (.error (.badData "Insert failed for data"),
      afterLog st (numbered env st transaction isMaster)) := by
  have items : (numbered env st transaction isMaster).item ≠ [] := nonempty
  simp [commit, nonempty, commitLog_eq env st isMaster nonempty, logged, commitData, items, failed]

/-- A commit whose writes succeed leaves log and data written, whatever the slave and the cache do. -/
theorem commit_written {env : CommitEnv} (st : SharedTable) {transaction : TransactionT} (isMaster : Bool)
    (nonempty : transaction.item ≠ []) (logged : env.logPut = true) (written : env.dataWrite = true) :
    ((commit env st transaction isMaster).1 = .ok () ↔ CacheAccepts st transaction) ∧
    ∃ lastslave dbcache, (commit env st transaction isMaster).2 =
      { afterData st (numbered env st transaction isMaster) with
        lastslave := lastslave
        dbcache := dbcache } := by
  have items : (numbered env st transaction isMaster).item ≠ [] := nonempty
  have replicated (st : SharedTable) : ∃ lastslave,
      replicate env st isMaster = { st with lastslave := lastslave } := by
    unfold replicate
    split
    · exact ⟨[], rfl⟩
    · exact ⟨st.lastslave, rfl⟩
  obtain ⟨lastslave, sent⟩ := replicated (afterData st (numbered env st transaction isMaster))
  have local_eq : (afterData st (numbered env st transaction isMaster)).lookupUsesLocal =
      st.lookupUsesLocal := by
    simp only [afterData, afterLog, SharedTable.putLog]
    split <;> rfl
  have unfolded : commit env st transaction isMaster =
      if st.lookupUsesLocal then
        ((StoreCache.addToCache (afterData st (numbered env st transaction isMaster)).dbcache transaction.item).1,
          { afterData st (numbered env st transaction isMaster) with
            lastslave := lastslave
            dbcache := (StoreCache.addToCache
              (afterData st (numbered env st transaction isMaster)).dbcache transaction.item).2 })
      else (.ok (), { afterData st (numbered env st transaction isMaster) with lastslave := lastslave }) := by
    rw [commit, if_neg nonempty, commitLog_eq env st isMaster nonempty]
    simp only [logged, commitData, items, written, if_true, if_false, not_true_eq_false]
    rw [show { afterLog st (numbered env st transaction isMaster) with
        maindb := applyItems (afterLog st (numbered env st transaction isMaster)).maindb
          (numbered env st transaction isMaster).item } =
      afterData st (numbered env st transaction isMaster) from rfl, sent]
    simp only [local_eq]
    rfl
  rw [unfolded]
  split
  · next uses =>
    refine ⟨?_, lastslave, _, rfl⟩
    rw [StoreCache.addToCache_ok_iff]
    simp [CacheAccepts, uses]
  · next unused => exact ⟨by simp [CacheAccepts, unused], lastslave, _, rfl⟩

/-- What a commit can do to a node. -/
theorem commit_cases (env : CommitEnv) (st : SharedTable) (transaction : TransactionT) (isMaster : Bool) :
    (transaction.item = [] ∧ commit env st transaction isMaster = (.ok (), st)) ∨
    (transaction.item ≠ [] ∧ env.logPut = false ∧ commit env st transaction isMaster =
      (.error (.badData "Insert failed for log"), { st with logcounter := st.logcounter + 1 })) ∨
    (transaction.item ≠ [] ∧ env.logPut = true ∧ env.dataWrite = false ∧
      commit env st transaction isMaster = (.error (.badData "Insert failed for data"),
        afterLog st (numbered env st transaction isMaster))) ∨
    (transaction.item ≠ [] ∧ env.logPut = true ∧ env.dataWrite = true ∧
      ((commit env st transaction isMaster).1 = .ok () ↔ CacheAccepts st transaction) ∧
      ∃ lastslave dbcache, (commit env st transaction isMaster).2 =
        { afterData st (numbered env st transaction isMaster) with
          lastslave := lastslave
          dbcache := dbcache }) := by
  by_cases empty : transaction.item = []
  · exact .inl ⟨empty, commit_nil env st isMaster empty⟩
  cases logged : env.logPut with
  | false => exact .inr (.inl ⟨empty, rfl, commit_logFailed st isMaster empty logged⟩)
  | true =>
    cases written : env.dataWrite with
    | false => exact .inr (.inr (.inl ⟨empty, rfl, rfl, commit_dataFailed st isMaster empty logged written⟩))
    | true => exact .inr (.inr (.inr ⟨empty, rfl, rfl, commit_written st isMaster empty logged written⟩))

@[simp] theorem numbered_id (env : CommitEnv) (st : SharedTable) (transaction : TransactionT)
    (isMaster : Bool) : (numbered env st transaction isMaster).id = st.logcounter + 1 := rfl

@[simp] theorem numbered_item (env : CommitEnv) (st : SharedTable) (transaction : TransactionT)
    (isMaster : Bool) : (numbered env st transaction isMaster).item = transaction.item := rfl

@[simp] theorem afterLog_logcounter (st : SharedTable) (record : TransactionT) :
    (afterLog st record).logcounter = st.logcounter + 1 := by simp [afterLog]

@[simp] theorem afterLog_logStore (st : SharedTable) (record : TransactionT) :
    (afterLog st record).logStore = st.logStore.put (logKey record.id) (.log record) := by
  rw [afterLog, SharedTable.putLog_logStore]
  rfl

@[simp] theorem afterLog_logdb_isSome (st : SharedTable) (record : TransactionT) :
    (afterLog st record).logdb.isSome = st.logdb.isSome := by simp [afterLog]

/-- Committing does not change the build. -/
@[simp] theorem commit_logdb_isSome (env : CommitEnv) (st : SharedTable) (transaction : TransactionT)
    (isMaster : Bool) : (commit env st transaction isMaster).2.logdb.isSome = st.logdb.isSome := by
  have after (record : TransactionT) : (afterData st record).logdb.isSome = st.logdb.isSome :=
    afterLog_logdb_isSome st record
  rcases commit_cases env st transaction isMaster with ⟨_, same⟩ | ⟨_, _, same⟩ | ⟨_, _, _, same⟩ |
    ⟨_, _, _, _, lastslave, dbcache, same⟩
  · rw [same]
  · rw [same]
  · rw [same, afterLog_logdb_isSome]
  · rw [same]
    exact after _

theorem afterLog_maindb (st : SharedTable) (record : TransactionT) {key : Bytes} (offLog : OffLog st key) :
    (afterLog st record).maindb.get? key = st.maindb.get? key := by
  rw [afterLog, SharedTable.get?_putLog_maindb]
  refine offLog.imp id ?_
  rintro notLog rfl
  exact notLog (hasType_logKey _)

theorem afterData_maindb (st : SharedTable) (record : TransactionT) {key : Bytes} (offLog : OffLog st key) :
    (afterData st record).maindb.get? key = (applyItems st.maindb record.item).get? key :=
  applyItems_congr (afterLog_maindb st record offLog) record.item

/-- The data after a commit, whatever happened to its writes. -/
theorem commit_offLog (env : CommitEnv) (st : SharedTable) (transaction : TransactionT) (isMaster : Bool)
    {key : Bytes} (offLog : OffLog st key) : (commit env st transaction isMaster).2.maindb.get? key =
      (applyItems st.maindb (if env.logPut && env.dataWrite then transaction.item else [])).get? key := by
  rcases commit_cases env st transaction isMaster with ⟨empty, same⟩ | ⟨_, failed, same⟩ |
    ⟨_, logged, failed, same⟩ | ⟨_, logged, written, _, lastslave, dbcache, after⟩
  · rw [same, empty, ite_self, applyItems_nil]
  · rw [same, failed]
    rfl
  · rw [same, failed, Bool.and_false]
    exact afterLog_maindb st _ offLog
  · rw [after, logged, written]
    exact afterData_maindb st _ offLog

@[simp] theorem commit_maincounter (env : CommitEnv) (st : SharedTable) (transaction : TransactionT)
    (isMaster : Bool) : (commit env st transaction isMaster).2.maincounter = st.maincounter := by
  rcases commit_cases env st transaction isMaster with ⟨_, same⟩ | ⟨_, _, same⟩ | ⟨_, _, _, same⟩ |
    ⟨_, _, _, _, lastslave, dbcache, after⟩
  · rw [same]
  · rw [same]
  · rw [same]
    simp [afterLog]
  · rw [after]
    simp [afterData, afterLog]

@[simp] theorem commit_hostname (env : CommitEnv) (st : SharedTable) (transaction : TransactionT)
    (isMaster : Bool) : (commit env st transaction isMaster).2.hostname = st.hostname := by
  rcases commit_cases env st transaction isMaster with ⟨_, same⟩ | ⟨_, _, same⟩ | ⟨_, _, _, same⟩ |
    ⟨_, _, _, _, lastslave, dbcache, after⟩
  · rw [same]
  · rw [same]
  · rw [same]
    simp [afterLog]
  · rw [after]
    simp [afterData, afterLog]

@[simp] theorem commit_lookupUsesLocal (env : CommitEnv) (st : SharedTable) (transaction : TransactionT)
    (isMaster : Bool) : (commit env st transaction isMaster).2.lookupUsesLocal = st.lookupUsesLocal := by
  rcases commit_cases env st transaction isMaster with ⟨_, same⟩ | ⟨_, _, same⟩ | ⟨_, _, _, same⟩ |
    ⟨_, _, _, _, lastslave, dbcache, after⟩
  · rw [same]
  · rw [same]
  · rw [same]
    simp [afterLog]
  · rw [after]
    simp [afterData, afterLog]

/-- The cache follows a transaction whose writes succeeded, if the node looks up in it. -/
theorem commit_dbcache (env : CommitEnv) (st : SharedTable) (transaction : TransactionT) (isMaster : Bool) :
    (commit env st transaction isMaster).2.dbcache =
      if env.logPut && env.dataWrite && st.lookupUsesLocal then (StoreCache.addToCache st.dbcache transaction.item).2
      else st.dbcache := by
  have replicated (st : SharedTable) : (replicate env st isMaster).dbcache = st.dbcache ∧
      (replicate env st isMaster).lookupUsesLocal = st.lookupUsesLocal := by
    unfold replicate
    split <;> exact ⟨rfl, rfl⟩
  by_cases empty : transaction.item = []
  · rw [commit_nil env st isMaster empty, empty]
    exact (ite_self st.dbcache).symm
  · have items : (numbered env st transaction isMaster).item ≠ [] := empty
    cases logged : env.logPut with
    | false =>
      rw [commit_logFailed st isMaster empty logged]
      rfl
    | true =>
      cases written : env.dataWrite with
      | false =>
        rw [commit_dataFailed st isMaster empty logged written]
        simp [afterLog]
      | true =>
        rw [commit, if_neg empty, commitLog_eq env st isMaster empty]
        simp only [logged, commitData, items, written, if_true, if_false, not_true_eq_false, Bool.true_and]
        rw [(replicated _).2]
        cases uses : st.lookupUsesLocal <;> simp [replicated, afterLog, uses]

/-- The items of a transaction do not reach the log. -/
theorem afterData_logStore (st : SharedTable) (record : TransactionT)
    (separate : st.logdb.isSome ∨ ItemsOffLog record.item) {key : Bytes} (logType : HasType .kLogNode key) :
    (afterData st record).logStore.get? key = (afterLog st record).logStore.get? key := by
  have same : (afterData st record).logdb = (afterLog st record).logdb := rfl
  have sides := afterLog_logdb_isSome st record
  cases logdb : (afterLog st record).logdb with
  | some logdb' => simp only [SharedTable.logStore, same, logdb, Option.getD_some]
  | none =>
    have shared : st.logdb.isSome = false := by rw [← sides, logdb, Option.isSome_none]
    have off : ItemsOffLog record.item := separate.resolve_left (by simp [shared])
    simp only [SharedTable.logStore, same, logdb, Option.getD_none]
    apply applyItems_of_untouched
    rintro item member rfl
    exact off item member logType

/-- The effect of one logged and applied transaction. -/
structure Appended (st st' : SharedTable) (record : TransactionT) : Prop where
  logcounter : st'.logcounter = st.logcounter + 1
  maincounter : st'.maincounter = st.maincounter
  build : st'.logdb.isSome = st.logdb.isSome
  entries : ∀ id, 1 ≤ id → logEntry st' id = if id = record.id then some record else logEntry st id
  data : ∀ key, OffLog st key → st'.maindb.get? key = (applyItems st.maindb record.item).get? key
  logOf : LogOf st → LogOf st'

section Lookup

variable {st st' : SharedTable} {record : TransactionT}

/-- The entries of a log with one more transaction. -/
theorem logEntry_of_lookup (lookup : ∀ key, HasType .kLogNode key → st'.logStore.get? key =
      if key = logKey record.id then some (.log record) else st.logStore.get? key) (id : ℕ) :
    logEntry st' id = if id = record.id then some record else logEntry st id := by
  simp only [logEntry, lookup _ (hasType_logKey id), logKey_inj]
  split <;> rfl

theorem LogOf.of_lookup (log : LogOf st) (next : record.id = st.logcounter + 1)
    (logcounter : st'.logcounter = st.logcounter + 1)
    (lookup : ∀ key, HasType .kLogNode key → st'.logStore.get? key =
      if key = logKey record.id then some (.log record) else st.logStore.get? key) : LogOf st' := by
  intro key value logType has
  rw [lookup key logType] at has
  split at has
  · next here =>
    cases has
    exact .inr ⟨record, rfl, here, by omega, by omega⟩
  · rcases log key value logType has with fence | ⟨old, same, oldKey, positive, bound⟩
    · exact .inl fence
    · exact .inr ⟨old, same, oldKey, positive, by omega⟩

/-- A node with one more entry under the next identifier, and its items in the data. -/
theorem Appended.of_lookup (next : record.id = st.logcounter + 1)
    (logcounter : st'.logcounter = st.logcounter + 1) (maincounter : st'.maincounter = st.maincounter)
    (build : st'.logdb.isSome = st.logdb.isSome)
    (lookup : ∀ key, HasType .kLogNode key → st'.logStore.get? key =
      if key = logKey record.id then some (.log record) else st.logStore.get? key)
    (data : ∀ key, OffLog st key → st'.maindb.get? key = (applyItems st.maindb record.item).get? key) :
    Appended st st' record :=
  ⟨logcounter, maincounter, build, fun id _ => logEntry_of_lookup lookup id, data,
    fun log => log.of_lookup next logcounter lookup⟩

end Lookup

theorem get?_afterLog_logStore (st : SharedTable) (record : TransactionT) (key : Bytes) :
    (afterLog st record).logStore.get? key =
      if key = logKey record.id then some (.log record) else st.logStore.get? key := by
  rw [afterLog_logStore, OrderedMap.get?_put]
  congr

theorem appended_afterData {st : SharedTable} {record : TransactionT} (next : record.id = st.logcounter + 1)
    (separate : st.logdb.isSome ∨ ItemsOffLog record.item) : Appended st (afterData st record) record := by
  have logcounter : (afterData st record).logcounter = st.logcounter + 1 := afterLog_logcounter st record
  have build : (afterData st record).logdb.isSome = st.logdb.isSome := afterLog_logdb_isSome st record
  apply Appended.of_lookup next logcounter (by simp [afterData, afterLog]) build
  · intro key logType
    rw [afterData_logStore st record separate logType, get?_afterLog_logStore]
  · exact fun key offLog => afterData_maindb st record offLog

/-- A commit whose writes succeed appends its transaction, numbered, to the log. -/
theorem commit_appended {env : CommitEnv} {st : SharedTable} {transaction : TransactionT} (isMaster : Bool)
    (nonempty : transaction.item ≠ []) (logged : env.logPut = true) (written : env.dataWrite = true)
    (separate : st.logdb.isSome ∨ ItemsOffLog transaction.item) :
    Appended st (commit env st transaction isMaster).2 (numbered env st transaction isMaster) := by
  obtain ⟨lastslave, dbcache, after⟩ := (commit_written st isMaster nonempty logged written).2
  have appended : Appended st (afterData st (numbered env st transaction isMaster))
      (numbered env st transaction isMaster) := appended_afterData rfl separate
  rw [after]
  exact ⟨appended.logcounter, appended.maincounter, appended.build, appended.entries, appended.data,
    appended.logOf⟩

/-- The log up to the new transaction. -/
theorem Appended.logUpTo_succ {st st' : SharedTable} {record : TransactionT} (appended : Appended st st' record)
    (next : record.id = st.logcounter + 1) :
    logUpTo st' (st.logcounter + 1) = logUpTo st st.logcounter ++ [record] := by
  have last : logEntry st' (st.logcounter + 1) = some record := by
    rw [appended.entries _ (by omega), if_pos next.symm]
  have older : logUpTo st' st.logcounter = logUpTo st st.logcounter := by
    apply logUpTo_congr
    intro id positive old
    rw [appended.entries id positive, if_neg (by omega)]
  rw [Identt.logUpTo_succ, last, older, Option.toList_some]

/-- The data follows the log. -/
theorem Appended.hasData {st st' : SharedTable} {record : TransactionT} (appended : Appended st st' record)
    {db : DB} (data : HasData st db) : HasData st' (applyItems db record.item) := by
  intro key offLog
  have before : OffLog st key := by rwa [OffLog, ← appended.build]
  rw [appended.data key before]
  exact applyItems_congr (data key before) record.item

theorem Appended.replayed {st st' : SharedTable} {record : TransactionT} (appended : Appended st st' record)
    (next : record.id = st.logcounter + 1) {base : DB} (data : Replayed base st) : Replayed base st' := by
  rw [Replayed, appended.logcounter, appended.logUpTo_succ next, replay_append, replay_singleton]
  exact appended.hasData data

theorem Appended.offLog_iff {st st' : SharedTable} {record : TransactionT}
    (appended : Appended st st' record) (key : Bytes) : OffLog st' key ↔ OffLog st key := by
  rw [OffLog, OffLog, appended.build]

end Identt
