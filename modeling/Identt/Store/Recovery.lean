import Identt.Lib.Run
import Identt.Store.LastId
import Identt.Store.LogView

/-! # Failing writes and restarts

A node commits, fails to write its log or its data, stops between the two writes, and starts again.
Its log is contiguous up to the counter and its data is that log replayed as long as no write fails
and no restart finds data behind the log; what a restart reads back is the counter.
-/

namespace Identt

open Store StoreTrans

/-- A process that stopped comes up on the stores it left; what it held in memory is gone. A process
that cannot come up leaves everything as it was. -/
def restart (st : SharedTable) : SharedTable :=
  match workServerInit { st with lastslave := [], remotes := [], dbcache := .empty } with
  | .ok st => st
  | .error _ => st

/-- A call of `Commit`, a stop between its two writes with the restart, or a restart alone. -/
inductive NodeStep where
  | call (env : CommitEnv) (transaction : TransactionT) (isMaster : Bool)
  | stop (now : UInt64) (transaction : TransactionT) (isMaster : Bool)
  | restart

def NodeStep.items : NodeStep → List TransItemT
  | .call _ transaction _ | .stop _ transaction _ => transaction.item
  | .restart => []

def nodeStep (st : SharedTable) : NodeStep → SharedTable
  | .call env transaction isMaster => (commit env st transaction isMaster).2
  | .stop now transaction isMaster =>
    restart (commitLog { now := now } st transaction isMaster).2.2
  | .restart => Identt.restart st

/-- The log holds the identifiers from two, the first one a node gives out, to its counter. -/
def Contiguous (st : SharedTable) : Prop :=
  ∀ id, 1 ≤ id → ((logEntry st id).isSome ↔ 2 ≤ id ∧ id ≤ st.logcounter)

/-- The node's log, counter and data are those of another state. -/
def SameStores (left right : SharedTable) : Prop :=
  left.logcounter = right.logcounter ∧ left.logStore = right.logStore ∧ left.maindb = right.maindb

/-- What holds between the steps of a run that no failure has hurt. -/
structure Sound (base : DB) (st : SharedTable) : Prop where
  logOf : LogOf st
  counter : 1 ≤ st.logcounter
  contiguous : Contiguous st
  data : Replayed base st
  /-- In the build with a separate log store, the data store has at most the fence of the log. -/
  separate : st.logdb.isSome → ∀ key value, HasType .kLogNode key → st.maindb.get? key = some value →
    key = logKey 0

/-- The data has every record with identifier zero that `Initialize` puts in front of a key type. -/
def Fenced (st : SharedTable) : Prop :=
  ∀ keytype ∈ StoreLevel.fenceTypes, OffLog st (encodePrimaryKey keytype 0) →
    (st.maindb.get? (encodePrimaryKey keytype 0)).isSome

/-- The step meets no failure that the log and the data do not survive. -/
def Unharmed (st : SharedTable) : NodeStep → Prop
  | .call env transaction _ => transaction.item = [] ∨
      (env.logPut = true ∧ env.dataWrite = true ∧ CacheAccepts st transaction)
  | .stop _ transaction _ => Fenced st ∧
      ∀ key, OffLog st key → (applyItems st.maindb transaction.item).get? key = st.maindb.get? key
  | .restart => Fenced st

/-- A commit that appends to a sound node leaves it sound. -/
theorem Sound.append {base : DB} {st st' : SharedTable} (sound : Sound base st) {record : TransactionT}
    (next : record.id = st.logcounter + 1) (appended : Appended st st' record)
    (maindb : st.logdb.isSome → ∀ key, HasType .kLogNode key → st'.maindb.get? key = st.maindb.get? key) :
    Sound base st' := by
  have counter := appended.logcounter
  have positive := sound.counter
  refine ⟨appended.logOf sound.logOf, by omega, fun id idPositive => ?_,
    appended.replayed next sound.data, ?_⟩
  · rw [appended.entries id idPositive, counter]
    split
    · next isNew =>
      simp only [Option.isSome_some, true_iff]
      omega
    · next isOld =>
      rw [sound.contiguous id idPositive]
      omega
  · intro isSeparate key value logType has
    rw [appended.build] at isSeparate
    rw [maindb isSeparate key logType] at has
    exact sound.separate isSeparate key value logType has

/-- In the build with a separate log store, a commit leaves the log's keys of the data store alone. -/
theorem commit_maindb {env : CommitEnv} {st : SharedTable} {transaction : TransactionT} (isMaster : Bool)
    (nonempty : transaction.item ≠ []) (logged : env.logPut = true) (written : env.dataWrite = true)
    (offLog : ItemsOffLog transaction.item) (isSeparate : st.logdb.isSome) {key : Bytes}
    (ofLog : HasType .kLogNode key) :
    (commit env st transaction isMaster).2.maindb.get? key = st.maindb.get? key := by
  obtain ⟨lastslave, dbcache, after⟩ := (commit_written st isMaster nonempty logged written).2
  obtain ⟨logdb, has⟩ := Option.isSome_iff_exists.mp isSeparate
  have applied : (commit env st transaction isMaster).2.maindb = applyItems st.maindb transaction.item := by
    rw [after]
    simp [afterData, afterLog, SharedTable.putLog, has]
  rw [applied]
  apply applyItems_of_untouched
  rintro item member rfl
  exact offLog item member ofLog

section Restart

/-- Keys between the first key of the log and the first key behind it are keys of the log. -/
theorem hasType_kLogNode_of_between {key : Bytes} (above : ¬ key < logKey 0)
    (below : key < encodeKeyType .kMaxNode) : HasType .kLogNode key := by
  have low : encodeKeyType .kLogNode = [49, 55] := by decide
  have high : encodeKeyType .kMaxNode = [49, 56] := by decide
  have first : logKey 0 = 49 :: 55 :: hex nodeLen 0 := by rw [logKey, encodePrimaryKey, low]; rfl
  rw [first] at above
  rw [high] at below
  rw [HasType, low]
  cases key with
  | nil => exact (above (List.nil_lt_cons _ _)).elim
  | cons c rest =>
    simp only [List.cons_lt_cons_iff, not_or, not_and] at above below
    have head : c = 49 := by
      rcases below with less | ⟨same, _⟩
      · exact (above.1 less).elim
      · exact same
    subst head
    cases rest with
    | nil => exact (above.2 rfl (List.nil_lt_cons _ _)).elim
    | cons d rest =>
      simp only [lt_irrefl, false_or, true_and, forall_const, List.cons_lt_cons_iff, not_or, not_and,
        not_false_eq_true] at above below
      have second : d = 55 := by
        have notBelow := above.1
        rcases below with less | ⟨_, empty⟩
        · rw [UInt8.lt_iff_toNat_lt] at less notBelow
          apply UInt8.toNat_inj.mp
          simp only [UInt8.reduceToNat] at less notBelow ⊢
          omega
        · exact (List.not_lt_nil _ empty).elim
      subst second
      exact ⟨rest, rfl⟩

variable {db : DB}

/-- The last log identifier that opening a store finds. -/
theorem lastId_log (log : ∀ key value, HasType .kLogNode key → db.get? key = some value →
      ∃ n < 2 ^ 64, key = logKey n)
    (fence : (db.get? (logKey 0)).isSome) (nextFence : (db.get? (encodePrimaryKey .kMaxNode 0)).isSome)
    (fixedMissing zeroMissing : String) :
    ∃ n, StoreLevel.lastId db .kMaxNode .kLogNode fixedMissing zeroMissing = .ok (some n) ∧
      (db.get? (logKey n)).isSome ∧ ∀ m, m < 2 ^ 64 → (db.get? (logKey m)).isSome → m ≤ n :=
  StoreLevel.lastId_eq (by decide) (fun _ _ _ above below => hasType_kLogNode_of_between above below)
    (fun key value has ofLog => log key value ofLog has) fence nextFence fixedMissing zeroMissing

/-- What opening a store that succeeds reads. -/
theorem initializeStore_eq {db' : DB} {pkey lkey pkey' lkey' : ℕ}
    (init : StoreLevel.initializeStore db pkey lkey = .ok (db', pkey', lkey')) :
    db' = StoreLevel.putFences db ∧
      StoreLevel.lastPkey (StoreLevel.putFences db) pkey StoreLevel.dataTypes = .ok pkey' ∧
      ∃ id, StoreLevel.lastId (StoreLevel.putFences db) .kMaxNode .kLogNode
        "Fixed record K_MAXNODE missing" "Zero record before K_MAXNODE missing" = .ok id ∧
        lkey' = max lkey (id.getD 0) := by
  simp only [StoreLevel.initializeStore, bind_eq_ok, pure, Except.pure, Except.ok.injEq, Prod.mk.injEq] at init
  obtain ⟨id, readId, last, readLast, sameDb, samePkey, sameLkey⟩ := init
  rw [samePkey] at readLast
  exact ⟨sameDb.symm, readLast, id, readId, sameLkey.symm⟩

/-- A store whose log holds the identifiers from two to `last` is opened with that counter. -/
theorem lastId_of_contiguous {last : ℕ} (word : last < 2 ^ 64)
    (log : ∀ key value, HasType .kLogNode key → db.get? key = some value →
      key = logKey 0 ∨ ∃ id, 1 ≤ id ∧ id ≤ last ∧ key = logKey id)
    (contiguous : ∀ id, 1 ≤ id → id ≤ last → ((db.get? (logKey id)).isSome ↔ 2 ≤ id))
    {fixedMissing zeroMissing : String} {id : Option ℕ}
    (read : StoreLevel.lastId (StoreLevel.putFences db) .kMaxNode .kLogNode fixedMissing zeroMissing = .ok id) :
    id = some (if 2 ≤ last then last else 0) := by
  have fenced (n : ℕ) (positive : n ≠ 0) :
      (StoreLevel.putFences db).get? (logKey n) = db.get? (logKey n) :=
    StoreLevel.get?_putFences_primary db .kLogNode positive
  have typed : ∀ key value, HasType .kLogNode key → (StoreLevel.putFences db).get? key = some value →
      ∃ n ≤ last, key = logKey n := by
    intro key value ofLog has
    by_cases fence : key = logKey 0
    · exact ⟨0, by omega, fence⟩
    · rw [StoreLevel.get?_putFences_of_ne db ofLog fence] at has
      rcases log key value ofLog has with isFence | ⟨n, _, bound, here⟩
      · exact ⟨0, by omega, isFence⟩
      · exact ⟨n, bound, here⟩
  have logFence : ((StoreLevel.putFences db).get? (logKey 0)).isSome :=
    StoreLevel.putFences_fence db (by decide)
  have maxFence : ((StoreLevel.putFences db).get? (encodePrimaryKey .kMaxNode 0)).isSome :=
    StoreLevel.putFences_fence db (by decide)
  have words : ∀ key value, HasType .kLogNode key → (StoreLevel.putFences db).get? key = some value →
      ∃ n < 2 ^ 64, key = logKey n := by
    intro key value ofLog has
    obtain ⟨n, bound, here⟩ := typed key value ofLog has
    exact ⟨n, lt_of_le_of_lt bound word, here⟩
  obtain ⟨n, result, present, greatest⟩ := lastId_log words logFence maxFence fixedMissing zeroMissing
  have same := Except.ok.inj (read.symm.trans result)
  subst same
  obtain ⟨value, has⟩ := Option.isSome_iff_exists.mp present
  obtain ⟨m, bound, here⟩ := typed _ value (hasType_logKey n) has
  have isM : n = m := logKey_inj.mp here
  rcases Nat.lt_or_ge last 2 with one | two
  · rw [if_neg (by omega)]
    have zero : n = 0 := by
      by_contra positive
      rw [fenced n (by omega), contiguous n (by omega) (by omega)] at present
      omega
    rw [zero]
  · rw [if_pos two]
    have lastPresent : ((StoreLevel.putFences db).get? (logKey last)).isSome := by
      rw [fenced last (by omega), contiguous last (by omega) le_rfl]
      exact two
    have least := greatest last word lastPresent
    rw [show n = last by omega]

/-- A store with no log raises no counter. -/
theorem lastId_of_fenceOnly
    (fenceOnly : ∀ key value, HasType .kLogNode key → db.get? key = some value → key = logKey 0)
    {fixedMissing zeroMissing : String} {id : Option ℕ}
    (read : StoreLevel.lastId (StoreLevel.putFences db) .kMaxNode .kLogNode fixedMissing zeroMissing = .ok id) :
    id = some 0 := by
  have noEntry : ∀ id, 1 ≤ id → id ≤ 1 → ((db.get? (logKey id)).isSome ↔ 2 ≤ id) := by
    intro id low high
    cases has : db.get? (logKey id) with
    | none =>
      simp only [Option.isSome_none, Bool.false_eq_true, false_iff]
      omega
    | some value =>
      have zero := logKey_inj.mp (fenceOnly _ value (hasType_logKey id) has)
      omega
  have last := lastId_of_contiguous (by omega) (fun key value ofLog has => .inl (fenceOnly key value ofLog has))
    noEntry read
  rwa [if_neg (by omega)] at last

/-- What a node that starts makes of its stores. -/
theorem workServerInit_eq {st st' : SharedTable} (init : workServerInit st = .ok st') :
    ∃ pkey lkey opened,
      StoreLevel.initializeStore st.maindb 0 0 = .ok (StoreLevel.putFences st.maindb, pkey, lkey) ∧
      st'.maindb = StoreLevel.putFences st.maindb ∧ st'.logdb = st.logdb.map StoreLevel.putFences ∧
      st'.maincounter = (if 0 < pkey then pkey else 1) ∧ st'.logcounter = (if 0 < opened then opened else 1) ∧
      (st.logdb = none → opened = lkey) ∧
      ∀ logdb, st.logdb = some logdb → ∃ ignored,
        StoreLevel.initializeStore logdb pkey lkey = .ok (StoreLevel.putFences logdb, ignored, opened) := by
  simp only [workServerInit, bind_eq_ok, pure, Except.pure, Except.ok.injEq] at init
  obtain ⟨⟨maindb, pkey, lkey⟩, readMain, ⟨logdb, opened⟩, readLog, dbcache, _, rfl⟩ := init
  have fenced := (initializeStore_eq readMain).1
  subst fenced
  refine ⟨pkey, lkey, opened, readMain, rfl, ?_, rfl, rfl, ?_, ?_⟩
  · cases kept : st.logdb with
    | none =>
      rw [kept] at readLog
      cases readLog
      rfl
    | some store =>
      rw [kept] at readLog
      obtain ⟨⟨fenced, ignored, lkey'⟩, readStore, same⟩ := bind_eq_ok.mp readLog
      have opens := (Prod.mk.inj (Except.ok.inj same)).1
      rw [← opens, (initializeStore_eq readStore).1, Option.map_some]
  · intro absent
    rw [absent] at readLog
    cases readLog
    rfl
  · intro store kept
    rw [kept] at readLog
    obtain ⟨⟨fenced, ignored, lkey'⟩, readStore, same⟩ := bind_eq_ok.mp readLog
    have counter := (Prod.mk.inj (Except.ok.inj same)).2
    rw [← counter, ← (initializeStore_eq readStore).1]
    exact ⟨ignored, readStore⟩

end Restart

/-- The log of a sound node has its fence and entries up to the counter. -/
theorem Sound.logKeys {base : DB} {st : SharedTable} (sound : Sound base st) (key : Bytes) (value : Stored)
    (ofLog : HasType .kLogNode key) (has : st.logStore.get? key = some value) :
    key = logKey 0 ∨ ∃ id, 1 ≤ id ∧ id ≤ st.logcounter ∧ key = logKey id := by
  rcases sound.logOf key value ofLog has with ⟨fence, _⟩ | ⟨record, _, here, low, high⟩
  · exact .inl fence
  · exact .inr ⟨record.id, low, high, here⟩

/-- These are the entries from two on. -/
theorem Sound.logStore_isSome_iff {base : DB} {st : SharedTable} (sound : Sound base st) (id : ℕ) (positive : 1 ≤ id)
    (upTo : id ≤ st.logcounter) : (st.logStore.get? (logKey id)).isSome ↔ 2 ≤ id := by
  have entry := sound.contiguous id positive
  rw [and_iff_left upTo] at entry
  rw [← entry, logEntry]
  cases has : st.logStore.get? (logKey id) with
  | none => simp
  | some value =>
    rcases sound.logOf _ value (hasType_logKey id) has with ⟨fence, _⟩ | ⟨record, rfl, _⟩
    · have zero := logKey_inj.mp fence
      omega
    · simp [TransactionT.parse]

/-- The log counter that a restart reads is the one that was lost. -/
theorem Sound.restart_logcounter {base : DB} {st st' : SharedTable} (sound : Sound base st)
    (word : st.logcounter < 2 ^ 64) (init : workServerInit st = .ok st') :
    st'.logcounter = st.logcounter := by
  have positive := sound.counter
  obtain ⟨pkey, lkey, opened, readMain, _, _, _, counter, shared, separate⟩ := workServerInit_eq init
  have typed := sound.logKeys
  have contiguous := sound.logStore_isSome_iff
  have read : opened = if 2 ≤ st.logcounter then st.logcounter else 0 := by
    obtain ⟨_, _, mainId, readMainId, mainLkey⟩ := initializeStore_eq readMain
    cases kept : st.logdb with
    | none =>
      have same : st.logStore = st.maindb := by rw [SharedTable.logStore, kept, Option.getD_none]
      rw [same] at typed contiguous
      rw [shared kept, mainLkey, lastId_of_contiguous word typed contiguous readMainId, Option.getD_some,
        Nat.zero_max]
    | some logdb =>
      have same : st.logStore = logdb := by rw [SharedTable.logStore, kept, Option.getD_some]
      rw [same] at typed contiguous
      have fenceOnly := sound.separate (by rw [kept, Option.isSome_some])
      -- the data store of this build has no log
      have noLog := lastId_of_fenceOnly fenceOnly readMainId
      obtain ⟨ignored, readLog⟩ := separate logdb kept
      obtain ⟨_, _, logId, readLogId, logLkey⟩ := initializeStore_eq readLog
      rw [logLkey, mainLkey, noLog, lastId_of_contiguous word typed contiguous readLogId]
      simp
  rw [counter, read]
  rcases Nat.lt_or_ge st.logcounter 2 with one | two
  · rw [if_neg (by omega : ¬ 2 ≤ st.logcounter), if_neg (by omega)]
    omega
  · rw [if_pos two, if_pos (by omega)]

/-- Putting the fences back adds nothing to the log but its own. -/
theorem Sound.logOf_putFences {base : DB} {st st' : SharedTable} (sound : Sound base st)
    (logStore : st'.logStore = StoreLevel.putFences st.logStore) (counter : st'.logcounter = st.logcounter) :
    LogOf st' := by
  intro key value ofLog has
  rw [logStore] at has
  by_cases fence : key = logKey 0
  · subst fence
    rw [StoreLevel.get?_putFences] at has
    cases old : st.logStore.get? (logKey 0) with
    | none =>
      rw [old, if_pos ⟨.kLogNode, by decide, rfl⟩] at has
      cases has
      exact .inl ⟨rfl, rfl⟩
    | some value' =>
      rw [old, Option.some_or] at has
      cases has
      have kept := sound.logOf _ value ofLog old
      rwa [← counter] at kept
  · rw [StoreLevel.get?_putFences_of_ne _ ofLog fence] at has
    have kept := sound.logOf _ value ofLog has
    rwa [← counter] at kept

/-- A sound node whose fences are all there is sound after a restart. -/
theorem Sound.restart {base : DB} {st : SharedTable} (sound : Sound base st) (fenced : Fenced st)
    (word : st.logcounter < 2 ^ 64) : Sound base (restart st) := by
  have stopped : Sound base { st with lastslave := [], remotes := [], dbcache := .empty } :=
    ⟨sound.logOf, sound.counter, sound.contiguous, sound.data, sound.separate⟩
  rw [Identt.restart]
  split
  · next st' init =>
    have counter := stopped.restart_logcounter word init
    obtain ⟨_, _, _, _, maindb, logdb, _⟩ := workServerInit_eq init
    have build : st'.logdb.isSome = st.logdb.isSome := by rw [logdb, Option.isSome_map]
    have logStore : st'.logStore = StoreLevel.putFences st.logStore := by
      simp only [SharedTable.logStore, logdb, maindb]
      cases st.logdb <;> rfl
    have entry (id : ℕ) (positive : 1 ≤ id) : logEntry st' id = logEntry st id := by
      have kept : (StoreLevel.putFences st.logStore).get? (logKey id) = st.logStore.get? (logKey id) :=
        StoreLevel.get?_putFences_primary _ .kLogNode (by omega)
      rw [logEntry, logEntry, logStore, kept]
    constructor
    case logOf => exact sound.logOf_putFences logStore counter
    case counter =>
      rw [counter]
      exact sound.counter
    case contiguous =>
      intro id positive
      rw [entry id positive, counter]
      exact sound.contiguous id positive
    case data =>
      have sameLog : logUpTo st' st'.logcounter = logUpTo st st.logcounter := by
        rw [counter]
        exact logUpTo_congr fun id positive _ => entry id positive
      intro key offLog
      have before : OffLog st key := by rwa [OffLog, ← build]
      rw [sameLog, ← sound.data key before, maindb, StoreLevel.get?_putFences]
      by_cases isFence : ∃ keytype ∈ StoreLevel.fenceTypes, key = encodePrimaryKey keytype 0
      · obtain ⟨keytype, member, rfl⟩ := isFence
        obtain ⟨value, has⟩ := Option.isSome_iff_exists.mp (fenced keytype member before)
        rw [has, Option.some_or]
      · rw [if_neg isFence, Option.or_none]
    case separate =>
      intro isSeparate key value ofLog has
      by_contra noFence
      rw [maindb, StoreLevel.get?_putFences_of_ne _ ofLog noFence] at has
      exact noFence (sound.separate (by rwa [← build]) key value ofLog has)
  · exact sound

/-- A call that throws leaves the node's log, counter and data as they were. -/
def ThrowsClean (st : SharedTable) : NodeStep → Prop
  | .call env transaction isMaster => (commit env st transaction isMaster).1 = .ok () ∨
      SameStores (commit env st transaction isMaster).2 st
  | _ => True

/-- A throwing call always moves the counter, so the condition on calls is exact. -/
theorem throwsClean_call_iff {env : CommitEnv} {st : SharedTable} {transaction : TransactionT}
    {isMaster : Bool} : ThrowsClean st (.call env transaction isMaster) ↔
      Unharmed st (.call env transaction isMaster) := by
  simp only [ThrowsClean, Unharmed, SameStores]
  rcases commit_cases env st transaction isMaster with ⟨empty, same⟩ | ⟨nonempty, failed, same⟩ |
    ⟨nonempty, _, failed, same⟩ | ⟨nonempty, logged, written, status, lastslave, dbcache, after⟩
  · simp [same, empty]
  · simp [same, nonempty, failed]
  · simp [same, nonempty, failed]
  · have counter : (commit env st transaction isMaster).2.logcounter = st.logcounter + 1 := by
      rw [after]
      exact afterLog_logcounter st _
    simp [status, counter, nonempty, logged, written]

theorem Sound.step {base : DB} {st : SharedTable} (sound : Sound base st) {label : NodeStep}
    (offLog : ItemsOffLog label.items) (word : st.logcounter + 1 < 2 ^ 64) (unharmed : Unharmed st label) :
    Sound base (nodeStep st label) := by
  cases label with
  | call env transaction isMaster =>
    rcases unharmed with empty | ⟨logged, written, _⟩
    · rw [nodeStep, commit_nil env st isMaster empty]
      exact sound
    · by_cases empty : transaction.item = []
      · rw [nodeStep, commit_nil env st isMaster empty]
        exact sound
      · exact sound.append (numbered_id ..) (commit_appended isMaster empty logged written (.inr offLog))
          fun isSeparate key ofLog => commit_maindb isMaster empty logged written offLog isSeparate ofLog
  | stop now transaction isMaster =>
    obtain ⟨fenced, unchanged⟩ := unharmed
    by_cases empty : transaction.item = []
    · rw [nodeStep, commitLog, if_pos empty]
      exact sound.restart fenced (by omega)
    · have stopped : nodeStep st (.stop now transaction isMaster) =
          Identt.restart (afterLog st (numbered { now := now } st transaction isMaster)) := by
        rw [nodeStep, commitLog_eq _ st isMaster empty]
        rfl
      rw [stopped]
      generalize isRecord : numbered { now := now } st transaction isMaster = record
      have next : record.id = st.logcounter + 1 := by rw [← isRecord, numbered_id]
      have items : record.item = transaction.item := by rw [← isRecord, numbered_item]
      have appended : Appended st (afterLog st record) record := by
        apply Appended.of_lookup next (afterLog_logcounter st record) (by simp [afterLog])
          (afterLog_logdb_isSome st record) (fun key _ => get?_afterLog_logStore st record key)
        intro key off
        rw [afterLog_maindb st record off, items, unchanged key off]
      have logged : Sound base (afterLog st record) := by
        refine sound.append next appended fun isSeparate key ofLog => ?_
        exact afterLog_maindb st record (.inl isSeparate)
      apply logged.restart
      · intro keytype member off
        have before : OffLog st (encodePrimaryKey keytype 0) := (appended.offLog_iff _).mp off
        rw [afterLog_maindb st record before]
        exact fenced keytype member before
      · rw [afterLog_logcounter]
        exact word
  | restart => exact sound.restart unharmed (by omega)

/-- In a run none of whose steps is harmed the log is contiguous and the data follows it in every
state, and no call that throws leaves a trace. -/
theorem unharmed_run_keeps_log {base : DB} {start : SharedTable} (sound : Sound base start)
    {labels : List NodeStep} (offLog : ∀ label ∈ labels, ItemsOffLog label.items)
    (words : ∀ i, (Run.final nodeStep start (labels.take i)).logcounter + 1 < 2 ^ 64)
    (unharmed : Run.Guarded nodeStep Unharmed start labels) :
    (∀ i, Contiguous (Run.final nodeStep start (labels.take i)) ∧
      Replayed base (Run.final nodeStep start (labels.take i))) ∧
    Run.Guarded nodeStep ThrowsClean start labels := by
  have guarded : Run.Guarded nodeStep (fun st label =>
      ItemsOffLog label.items ∧ st.logcounter + 1 < 2 ^ 64 ∧ Unharmed st label) start labels :=
    fun i label here => ⟨offLog label (List.mem_of_getElem? here), words i, unharmed i label here⟩
  have throughout : ∀ i, Sound base (Run.final nodeStep start (labels.take i)) :=
    Run.invariant_of_guarded (fun st label (inv : Sound base st) guard => inv.step guard.1 guard.2.1 guard.2.2)
      sound guarded
  refine ⟨fun i => ⟨(throughout i).contiguous, (throughout i).data⟩, fun i label here => ?_⟩
  cases label with
  | call env transaction isMaster => exact throwsClean_call_iff.mpr (unharmed i _ here)
  | stop | restart => trivial

/-- A node that has just been started on an empty store. -/
def freshNode : SharedTable where
  maincounter := 1
  logcounter := 1
  isMaster := true
  maindb := StoreLevel.putFences .empty

theorem sound_freshNode : Sound freshNode.maindb freshNode := by
  have onlyFence : ∀ key value, HasType .kLogNode key → freshNode.logStore.get? key = some value →
      key = logKey 0 ∧ value = .data .empty := by
    intro key value ofLog has
    rw [show freshNode.logStore = StoreLevel.putFences .empty from rfl, StoreLevel.get?_putFences,
      OrderedMap.get?_empty, Option.none_or] at has
    split at has
    · next fence =>
      obtain ⟨keytype, _, rfl⟩ := fence
      have sameType := ofLog.unique (hasType_encodePrimaryKey keytype 0)
      subst sameType
      cases has
      exact ⟨rfl, rfl⟩
    · contradiction
  have noEntry (id : ℕ) (positive : 1 ≤ id) : logEntry freshNode id = none := by
    cases has : freshNode.logStore.get? (logKey id) with
    | none => rw [logEntry, has]; rfl
    | some value =>
      have zero := logKey_inj.mp (onlyFence _ value (hasType_logKey id) has).1
      omega
  refine ⟨fun key value ofLog has => .inl (onlyFence key value ofLog has), le_rfl, ?_, ?_, ?_⟩
  · intro id positive
    rw [noEntry id positive, show freshNode.logcounter = 1 from rfl]
    simp only [Option.isSome_none, Bool.false_eq_true, false_iff]
    omega
  · intro key _
    rw [show freshNode.logcounter = 0 + 1 from rfl, logUpTo_succ, noEntry 1 le_rfl]
    rfl
  · intro isSeparate
    contradiction

def onePut : TransactionT := { item := [⟨ascii "x", .peer { id := 2 }, false⟩] }

/-- A data write that fails leaves a logged transaction whose items are not in the data, and a log
write that fails leaves a gap; both calls throw and neither leaves the node as it was. -/
theorem failed_writes_diverge :
    (¬ Replayed freshNode.maindb (nodeStep freshNode (.call { now := 5, dataWrite := false } onePut true)) ∧
      ¬ ThrowsClean freshNode (.call { now := 5, dataWrite := false } onePut true)) ∧
    ¬ Contiguous (nodeStep freshNode (.call { now := 5, logPut := false } onePut true)) ∧
      ¬ ThrowsClean freshNode (.call { now := 5, logPut := false } onePut true) := by
  refine ⟨⟨fun follows => ?_, fun clean => ?_⟩, fun contiguous => ?_, fun clean => ?_⟩
  · have here := follows (ascii "x") (.inr (by decide))
    revert here
    decide +kernel
  · have call := throwsClean_call_iff.mp clean
    simp [Unharmed, onePut] at call
  · have last := contiguous 2 (by omega)
    revert last
    decide +kernel
  · have call := throwsClean_call_iff.mp clean
    simp [Unharmed, onePut] at call

/-- A commit that succeeds, and a restart. -/
def commitAndRestart : List NodeStep := [.call { now := 5 } onePut true, .restart]

theorem unharmed_run_keeps_log_commitAndRestart :
    (∀ i, Contiguous (Run.final nodeStep freshNode (commitAndRestart.take i)) ∧
      Replayed freshNode.maindb (Run.final nodeStep freshNode (commitAndRestart.take i))) ∧
    Run.Guarded nodeStep ThrowsClean freshNode commitAndRestart := by
  refine unharmed_run_keeps_log sound_freshNode ?_ ?_ ?_
  · intro label member item inItems
    rcases List.mem_cons.mp member with rfl | isRestart
    · obtain rfl := List.mem_singleton.mp inItems
      change ¬ HasType .kLogNode (ascii "x")
      decide
    · obtain rfl := List.mem_singleton.mp isRestart
      contradiction
  · intro i
    rcases i with _ | _ | i
    · decide
    · decide +kernel
    · rw [List.take_of_length_le (by simp [commitAndRestart])]
      decide +kernel
  · refine Run.guarded_cons.mpr ⟨.inr ⟨rfl, rfl, fun uses => by contradiction⟩,
      Run.guarded_cons.mpr ⟨?_, fun i label here => by simp at here⟩⟩
    intro keytype member _
    have all : ∀ keytype ∈ StoreLevel.fenceTypes,
        ((nodeStep freshNode (.call { now := 5 } onePut true)).maindb.get? (encodePrimaryKey keytype 0)).isSome := by
      decide +kernel
    exact all keytype member

end Identt
