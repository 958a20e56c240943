import Identt.Store.Recovery

/-! # What commits and restarts leave of a log

Whatever fails in a commit, the log has the new transaction or not, and everything else in it stays. A
restart reads a counter that no entry is beyond. So no entry is ever written over.
-/

namespace Identt

open Store StoreTrans

section Commit

variable (env : CommitEnv) (st : SharedTable) (transaction : TransactionT) (isMaster : Bool)

/-- The call writes to the log. -/
def Logs (env : CommitEnv) (transaction : TransactionT) : Prop := transaction.item ≠ [] ∧ env.logPut = true

instance : Decidable (Logs env transaction) := inferInstanceAs (Decidable (_ ∧ _))

variable {env st transaction isMaster}

/-- The entries after a commit, whatever happened to its writes. -/
theorem commit_logEntry (separate : st.logdb.isSome ∨ ItemsOffLog transaction.item) (id : ℕ) :
    logEntry (commit env st transaction isMaster).2 id =
      if Logs env transaction ∧ id = st.logcounter + 1 then some (numbered env st transaction isMaster)
      else logEntry st id := by
  have logged (same : Logs env transaction) : logEntry (afterLog st (numbered env st transaction isMaster)) id =
      if Logs env transaction ∧ id = st.logcounter + 1 then some (numbered env st transaction isMaster)
      else logEntry st id := by
    rw [logEntry_of_lookup (fun key _ => get?_afterLog_logStore st _ key), numbered_id]
    simp [same]
  rcases commit_cases env st transaction isMaster with ⟨empty, same⟩ | ⟨nonempty, failed, same⟩ |
    ⟨nonempty, put, failed, same⟩ | ⟨nonempty, put, written, _, lastslave, dbcache, after⟩
  · rw [same, if_neg fun both => both.1.1 empty]
  · rw [same, if_neg fun both => absurd both.1.2 (by simp [failed])]
    rfl
  · rw [same]
    exact logged ⟨nonempty, put⟩
  · rw [after, ← logged ⟨nonempty, put⟩]
    have kept := afterData_logStore st (numbered env st transaction isMaster) separate (hasType_logKey id)
    change ((afterData st (numbered env st transaction isMaster)).logStore.get? (logKey id)).bind _ = _
    rw [kept]
    rfl

theorem commit_logcounter : (commit env st transaction isMaster).2.logcounter =
    if transaction.item = [] then st.logcounter else st.logcounter + 1 := by
  rcases commit_cases env st transaction isMaster with ⟨empty, same⟩ | ⟨nonempty, failed, same⟩ |
    ⟨nonempty, put, failed, same⟩ | ⟨nonempty, put, written, _, lastslave, dbcache, after⟩
  · rw [same, if_pos empty]
  · rw [same, if_neg nonempty]
  · rw [same, if_neg nonempty, afterLog_logcounter]
  · rw [after, if_neg nonempty]
    exact afterLog_logcounter st _

theorem commit_isMaster : (commit env st transaction isMaster).2.isMaster = st.isMaster := by
  rcases commit_cases env st transaction isMaster with ⟨_, same⟩ | ⟨_, _, same⟩ | ⟨_, _, _, same⟩ |
    ⟨_, _, _, _, lastslave, dbcache, after⟩
  · rw [same]
  · rw [same]
  · rw [same]
    simp [afterLog]
  · rw [after]
    simp [afterData, afterLog]

/-- The log stays one, whatever happened to the writes. -/
theorem LogOf.commit (log : LogOf st) (separate : st.logdb.isSome ∨ ItemsOffLog transaction.item) :
    LogOf (commit env st transaction isMaster).2 := by
  have logged : LogOf (afterLog st (numbered env st transaction isMaster)) :=
    log.of_lookup (numbered_id ..) (afterLog_logcounter st _) fun key _ => get?_afterLog_logStore st _ key
  rcases commit_cases env st transaction isMaster with ⟨empty, same⟩ | ⟨nonempty, failed, same⟩ |
    ⟨nonempty, put, failed, same⟩ | ⟨nonempty, put, written, _⟩
  · rw [same]
    exact log
  · rw [same]
    intro key value ofLog has
    rcases log key value ofLog has with fence | ⟨record, stored, here, low, high⟩
    · exact .inl fence
    · exact .inr ⟨record, stored, here, low, Nat.le_succ_of_le high⟩
  · rw [same]
    exact logged
  · exact (commit_appended isMaster nonempty put written separate).logOf log

end Commit

section Restart

/-- Opening a store reads a log identifier that none in the store is beyond. -/
theorem le_lastId {db : DB} (log : ∀ key value, HasType .kLogNode key → db.get? key = some value →
      ∃ n < 2 ^ 64, key = logKey n) {fixedMissing zeroMissing : String} {id : Option ℕ}
    (read : StoreLevel.lastId (StoreLevel.putFences db) .kMaxNode .kLogNode fixedMissing zeroMissing = .ok id)
    {n : ℕ} (positive : 1 ≤ n) (word : n < 2 ^ 64) (present : (db.get? (logKey n)).isSome) : n ≤ id.getD 0 := by
  have typed : ∀ key value, HasType .kLogNode key → (StoreLevel.putFences db).get? key = some value →
      ∃ n < 2 ^ 64, key = logKey n := by
    intro key value ofLog has
    by_cases fence : key = logKey 0
    · exact ⟨0, by decide, fence⟩
    · rw [StoreLevel.get?_putFences_of_ne db ofLog fence] at has
      exact log key value ofLog has
  obtain ⟨last, result, _, greatest⟩ := lastId_log typed (StoreLevel.putFences_fence db (by decide))
    (StoreLevel.putFences_fence db (by decide)) fixedMissing zeroMissing
  have same := Except.ok.inj (read.symm.trans result)
  subst same
  apply greatest n word
  rwa [logKey, StoreLevel.get?_putFences_primary db .kLogNode (by omega)]

variable {st : SharedTable}

/-- The keys of a log whose counter is a word. -/
theorem LogOf.words (log : LogOf st) (word : st.logcounter < 2 ^ 64) (key : Bytes) (value : Stored)
    (ofLog : HasType .kLogNode key) (has : st.logStore.get? key = some value) : ∃ n < 2 ^ 64, key = logKey n := by
  rcases log key value ofLog has with ⟨fence, _⟩ | ⟨record, _, here, _, bound⟩
  · exact ⟨0, by decide, fence⟩
  · exact ⟨record.id, by omega, here⟩

/-- A node that starts puts its fences into its log store, and nothing else. -/
theorem workServerInit_logStore {st' : SharedTable} (init : workServerInit st = .ok st') :
    st'.logStore = StoreLevel.putFences st.logStore := by
  obtain ⟨_, _, _, _, maindb, logdb, _⟩ := workServerInit_eq init
  simp only [SharedTable.logStore, logdb, maindb]
  cases st.logdb <;> rfl

/-- A node that starts reads a counter that no entry of its log is beyond, in both builds. -/
theorem le_workServerInit_logcounter (log : LogOf st) (word : st.logcounter < 2 ^ 64) {st' : SharedTable}
    (init : workServerInit st = .ok st') {n : ℕ} (positive : 1 ≤ n) (isWord : n < 2 ^ 64)
    (present : (st.logStore.get? (logKey n)).isSome) : n ≤ st'.logcounter := by
  obtain ⟨pkey, lkey, opened, readMain, _, _, _, counter, shared, separate⟩ := workServerInit_eq init
  obtain ⟨_, _, mainId, readMainId, mainLkey⟩ := initializeStore_eq readMain
  have words := log.words word
  have bound : n ≤ opened := by
    cases kept : st.logdb with
    | none =>
      have store : st.logStore = st.maindb := by rw [SharedTable.logStore, kept, Option.getD_none]
      rw [store] at words present
      have least := le_lastId words readMainId positive isWord present
      rw [shared kept, mainLkey]
      omega
    | some logdb =>
      have store : st.logStore = logdb := by rw [SharedTable.logStore, kept, Option.getD_some]
      rw [store] at words present
      obtain ⟨ignored, readLog⟩ := separate logdb kept
      obtain ⟨_, _, logId, readLogId, logLkey⟩ := initializeStore_eq readLog
      have least := le_lastId words readLogId positive isWord present
      rw [logLkey]
      omega
  rw [counter, if_pos (by omega)]
  exact bound

theorem LogOf.workServerInit (log : LogOf st) (word : st.logcounter < 2 ^ 64) {st' : SharedTable}
    (init : workServerInit st = .ok st') : LogOf st' := by
  intro key value ofLog has
  have logStore := workServerInit_logStore init
  by_cases fence : key = logKey 0
  · subst fence
    rw [logStore, StoreLevel.get?_putFences] at has
    cases old : st.logStore.get? (logKey 0) with
    | none =>
      rw [old, if_pos ⟨.kLogNode, by decide, rfl⟩] at has
      cases has
      exact .inl ⟨rfl, rfl⟩
    | some value' =>
      rw [old, Option.some_or] at has
      cases has
      rcases log _ value ofLog old with isFence | ⟨record, _, here, low, _⟩
      · exact .inl isFence
      · have zero := logKey_inj.mp here
        omega
  · rw [logStore, StoreLevel.get?_putFences_of_ne _ ofLog fence] at has
    rcases log key value ofLog has with isFence | ⟨record, stored, here, low, high⟩
    · exact .inl isFence
    · refine .inr ⟨record, stored, here, low, ?_⟩
      apply le_workServerInit_logcounter log word init low (by omega)
      rw [← here, has]
      rfl

/-- What a restart makes of a log: its entries stay, and the counter is not behind them. -/
theorem restart_log (log : LogOf st) (word : st.logcounter < 2 ^ 64) :
    LogOf (restart st) ∧ (∀ id, 1 ≤ id → logEntry (restart st) id = logEntry st id) ∧
      (restart st).logdb.isSome = st.logdb.isSome := by
  have stopped : LogOf { st with lastslave := [], remotes := [], dbcache := .empty } := log
  rw [restart]
  split
  · next st' init =>
    refine ⟨stopped.workServerInit word init, fun id positive => ?_, ?_⟩
    · have kept : (StoreLevel.putFences st.logStore).get? (logKey id) = st.logStore.get? (logKey id) :=
        StoreLevel.get?_putFences_primary _ .kLogNode (by omega)
      rw [logEntry, logEntry, workServerInit_logStore init]
      exact congrArg (·.bind TransactionT.parse) kept
    · obtain ⟨_, _, _, _, _, logdb, _⟩ := workServerInit_eq init
      rw [logdb, Option.isSome_map]
  · exact ⟨log, fun _ _ => rfl, rfl⟩

end Restart

end Identt
