import Mathlib.Data.List.TakeWhile
import Identt.Hrpc.SyncServer
import Identt.Lib.Run
import Identt.Store.LogView

/-! # A slave follows its master's log

Master and slave share nothing but requests and answers. An answer holds transactions of the master's
log, which never change once written, so it stays good however long it travels; the slave's own test
of the next identifier does the rest.
-/

namespace Identt.Hrpc

open Store StoreTrans

/-- A master, a slave, and what is left of the last answer. -/
structure Cluster where
  master : SharedTable
  slave : SharedTable
  reply : List TransactionT := []

/-- A commit on the master, a request with its answer, or one commit on the slave. All writes
succeed; time and the reachability of the last slave are free. -/
inductive SyncStep where
  | masterCommit (now : UInt64) (buffTrans : Bool) (transaction : TransactionT)
  | pull (limit : ℕ) (sent answered : UInt64)
  | slaveCommit (now : UInt64)

/-- An environment in which every operation of the store succeeds. -/
def succeeding (now : UInt64) (buffTrans : Bool) : CommitEnv := { now := now, buffTrans := buffTrans }

def Cluster.step (s : Cluster) : SyncStep → Cluster
  | .masterCommit now buffTrans transaction =>
    { s with master := (commit (succeeding now buffTrans) s.master transaction true).2 }
  | .pull limit sent answered =>
    match transLog s.master (transLogRequest s.slave limit sent) answered with
    | (.ok data, master) => { s with master := master, reply := data.trans }
    | (.error _, master) => { s with master := master, reply := [] }
  | .slaveCommit now =>
    let (slave, reply) := syncNext (succeeding now true) s.slave s.reply
    { s with slave := slave, reply := reply }

/-- The first log is the second one up to its own counter. -/
def LogPrefix (slave master : SharedTable) : Prop :=
  slave.logcounter ≤ master.logcounter ∧
    ∀ id, 1 ≤ id → logEntry slave id = if id ≤ slave.logcounter then logEntry master id else none

/-- Neither node keeps its log among its data. -/
def SeparateLogs (s : Cluster) : Prop := s.master.logdb.isSome ∧ s.slave.logdb.isSome

/-- The transactions in a node's log keep off the log's keys. -/
def LogOffLog (st : SharedTable) : Prop :=
  ∀ id record, 1 ≤ id → logEntry st id = some record → ItemsOffLog record.item

/-- What the answer loop collects is in the log, behind the identifier it starts from. -/
theorem readLogLoop_mem {entries : List (Bytes × Stored)} {counter : ℕ} {tlist : TransListT}
    {record : TransactionT} (member : record ∈ (readLogLoop counter tlist entries).2.trans) :
    record ∈ tlist.trans ∨
      1 ≤ record.id ∧ ∃ entry ∈ entries, TransactionT.parse entry.2 = some record := by
  induction entries generalizing counter tlist with
  | nil => exact .inl member
  | cons entry rest ih =>
    obtain ⟨key, value⟩ := entry
    have later {tlist : TransListT} (inRest : record ∈ tlist.trans ∨
        1 ≤ record.id ∧ ∃ entry ∈ rest, TransactionT.parse entry.2 = some record) :
        record ∈ tlist.trans ∨
          1 ≤ record.id ∧ ∃ entry ∈ (key, value) :: rest, TransactionT.parse entry.2 = some record :=
      inRest.imp id fun ⟨positive, entry, inRest, parsed⟩ =>
        ⟨positive, entry, List.mem_cons_of_mem _ inRest, parsed⟩
    rw [readLogLoop] at member
    cases parsed : TransactionT.parse value with
    | none =>
      rw [parsed] at member
      exact later (ih member)
    | some found =>
      simp only [parsed] at member
      split at member
      · exact later (ih member)
      split at member
      · exact .inl member
      next inSequence =>
      -- the record found here is added, with an identifier behind the last one
      have added : record ∈ tlist.trans ++ [found] → record ∈ tlist.trans ∨
          1 ≤ record.id ∧ ∃ entry ∈ (key, value) :: rest, TransactionT.parse entry.2 = some record := by
        intro inList
        rcases List.mem_append.mp inList with old | new
        · exact .inl old
        · obtain rfl := List.mem_singleton.mp new
          exact .inr ⟨by omega, _, List.mem_cons_self .., parsed⟩
      split at member
      · exact added member
      · rcases ih member with inList | inRest
        · exact added inList
        · exact later (.inr inRest)

/-- Every transaction of an answer is an entry of the master's log. -/
theorem transLog_mem {st : SharedTable} (log : LogOf st) {request data : TransListT} {now : UInt64}
    (empty : request.trans = []) (answer : (transLog st request now).1 = .ok data)
    {record : TransactionT} (member : record ∈ data.trans) :
    1 ≤ record.id ∧ logEntry st record.id = some record := by
  simp only [transLog] at answer
  split at answer
  · contradiction
  split at answer
  · cases answer
    rw [empty] at member
    contradiction
  next behind current =>
  simp only [readLog, if_neg behind, if_neg current] at answer
  generalize listed : (st.logStore.seek (logKey request.lastid)).takeWhile _ = entries at answer
  generalize collected : readLogLoop 0 request entries = result at answer
  obtain ⟨counter, tlist⟩ := result
  have inList : record ∈ tlist.trans := by
    cases answer
    simp only at member
    split at member <;> exact member
  have found : record ∈ (readLogLoop 0 request entries).2.trans := by rw [collected]; exact inList
  rcases readLogLoop_mem found with old | ⟨positive, ⟨key, value⟩, inEntries, parsed⟩
  · rw [empty] at old
    contradiction
  have inSeek : (key, value) ∈ st.logStore.seek (logKey request.lastid) := by
    rw [← listed] at inEntries
    exact (List.takeWhile_prefix _).subset inEntries
  have logType : HasType .kLogNode key := by
    rw [← listed] at inEntries
    have matched : (encodeKeyType .kLogNode).isPrefixOf (key, value).1 = true := by
      simpa using List.mem_takeWhile_imp inEntries
    exact List.isPrefixOf_iff_prefix.mp matched
  have has : st.logStore.get? key = some value :=
    OrderedMap.get?_eq_some_iff.mpr (OrderedMap.mem_seek.mp inSeek).1
  rcases log key value logType has with ⟨_, rfl⟩ | ⟨stored, rfl, rfl, _⟩
  · cases parsed
    contradiction
  · cases parsed
    exact ⟨positive, (logEntry_eq_some_iff log positive).mpr has⟩

theorem transLog_log (st : SharedTable) (request : TransListT) (now : UInt64) :
    ∃ lastslave, (transLog st request now).2 = { st with lastslave := lastslave } := by
  simp only [transLog]
  split
  · exact ⟨_, rfl⟩
  split
  · split <;> exact ⟨_, rfl⟩
  · exact ⟨_, rfl⟩

/-- What one turn of the slave's loop can do. -/
theorem syncNext_cases (env : CommitEnv) (st : SharedTable) (reply : List TransactionT) :
    (∃ rest, (∀ other ∈ rest, other ∈ reply) ∧ syncNext env st reply = (st, rest)) ∨
    ∃ record rest, record ∈ reply ∧ (∀ other ∈ rest, other ∈ reply) ∧
      record.id = st.logcounter + 1 ∧ record.item ≠ [] ∧
      syncNext env st reply = ((commit env st record false).2, rest) := by
  cases reply with
  | nil => exact .inl ⟨[], fun _ member => member, rfl⟩
  | cons record rest =>
    have inReply : ∀ other ∈ rest, other ∈ record :: rest := fun other member => List.mem_cons_of_mem _ member
    have none : ∀ other ∈ ([] : List TransactionT), other ∈ record :: rest :=
      fun other member => (List.not_mem_nil member).elim
    by_cases next : record.id = st.logcounter + 1
    · by_cases empty : record.item = []
      · left
        exact ⟨rest, inReply, by simp [syncNext, next, commit_nil env st false empty]⟩
      · right
        cases result : commit env st record false with
        | mk status slave =>
          cases status with
          | ok => exact ⟨record, rest, List.mem_cons_self .., inReply, next, empty,
              by simp [syncNext, next, result]⟩
          | error e => exact ⟨record, [], List.mem_cons_self .., none, next, empty,
              by simp [syncNext, next, result]⟩
    · exact .inl ⟨[], none, by simp [syncNext, next]⟩

/-- What holds of master, slave and answer in every reachable state. -/
structure Synced (base : DB) (s : Cluster) : Prop where
  masterLog : LogOf s.master
  slaveLog : LogOf s.slave
  logPrefix : LogPrefix s.slave s.master
  data : Replayed base s.slave
  separate : SeparateLogs s ∨ LogOffLog s.master
  reply : ∀ record ∈ s.reply, 1 ≤ record.id ∧ logEntry s.master record.id = some record

/-- A master that appends to its log keeps the slave's log a prefix of its own. -/
theorem Synced.masterAppends {base : DB} {s : Cluster} (synced : Synced base s) {master : SharedTable}
    {record : TransactionT} (next : record.id = s.master.logcounter + 1)
    (offLog : SeparateLogs s ∨ ItemsOffLog record.item)
    (appended : Appended s.master master record) : Synced base { s with master := master } := by
  have kept : ∀ id, 1 ≤ id → id ≤ s.master.logcounter → logEntry master id = logEntry s.master id := by
    intro id positive bound
    rw [appended.entries id positive, if_neg (by omega)]
  have counter := appended.logcounter
  obtain ⟨bound, entries⟩ := synced.logPrefix
  refine ⟨appended.logOf synced.masterLog, synced.slaveLog, ⟨?_, ?_⟩, synced.data, ?_, ?_⟩
  · change s.slave.logcounter ≤ master.logcounter
    omega
  · intro id positive
    change logEntry s.slave id = if id ≤ s.slave.logcounter then logEntry master id else none
    rw [entries id positive]
    split
    · rw [kept id positive (by omega)]
    · rfl
  · rcases synced.separate with separate | masterOff
    · exact .inl ⟨by rw [appended.build]; exact separate.1, separate.2⟩
    rcases offLog with separate | recordOff
    · exact .inl ⟨by rw [appended.build]; exact separate.1, separate.2⟩
    · right
      intro id other positive has
      change logEntry master id = some other at has
      rw [appended.entries id positive] at has
      split at has
      · cases has
        exact recordOff
      · exact masterOff id other positive has
  · intro other member
    obtain ⟨positive, has⟩ := synced.reply other member
    refine ⟨positive, ?_⟩
    change logEntry master other.id = some other
    rw [kept _ positive (synced.masterLog.entry positive has).2, has]

/-- A slave that commits the master's next transaction has a longer prefix of the master's log. -/
theorem LogPrefix.append {slave slave' master : SharedTable} (logPrefix : LogPrefix slave master)
    (masterLog : LogOf master) {record : TransactionT} (next : record.id = slave.logcounter + 1)
    (entry : logEntry master record.id = some record) (appended : Appended slave slave' record) :
    LogPrefix slave' master := by
  have bound := (masterLog.entry (by omega) entry).2
  have counter := appended.logcounter
  refine ⟨by omega, fun id positive => ?_⟩
  rw [appended.entries id positive, logPrefix.2 id positive]
  split
  · next isNew => rw [if_pos (by omega), isNew, entry]
  · next isOld =>
    by_cases old : id ≤ slave.logcounter
    · rw [if_pos old, if_pos (by omega)]
    · rw [if_neg old, if_neg (by omega)]

theorem Synced.slaveAppends {base : DB} {s : Cluster} (synced : Synced base s) {slave : SharedTable}
    {record : TransactionT} (next : record.id = s.slave.logcounter + 1)
    (entry : logEntry s.master record.id = some record) (appended : Appended s.slave slave record)
    {reply : List TransactionT} (sub : ∀ other ∈ reply, other ∈ s.reply) :
    Synced base { s with slave := slave, reply := reply } := by
  refine ⟨synced.masterLog, appended.logOf synced.slaveLog,
    synced.logPrefix.append synced.masterLog next entry appended, appended.replayed next synced.data, ?_,
    fun other member => synced.reply other (sub other member)⟩
  refine synced.separate.imp_left fun separate => ⟨separate.1, ?_⟩
  change slave.logdb.isSome = true
  rw [appended.build]
  exact separate.2

/-- The transactions a step commits on the master keep off the logs' keys, if either is among data. -/
def SyncStep.Separate (s : Cluster) : SyncStep → Prop
  | .masterCommit _ _ transaction => SeparateLogs s ∨ ItemsOffLog transaction.item
  | _ => True

theorem Synced.step {base : DB} {s : Cluster} (synced : Synced base s) (label : SyncStep)
    (offLog : label.Separate s) : Synced base (s.step label) := by
  cases label with
  | masterCommit now buffTrans transaction =>
    by_cases empty : transaction.item = []
    · rw [Cluster.step, commit_nil _ _ _ empty]
      exact synced
    · have separate : s.master.logdb.isSome ∨ ItemsOffLog transaction.item := offLog.imp_left And.left
      have appended : Appended s.master (commit (succeeding now buffTrans) s.master transaction true).2 _ :=
        commit_appended true empty rfl rfl separate
      exact synced.masterAppends (numbered_id ..) offLog appended
  | pull limit sent answered =>
    obtain ⟨lastslave, same⟩ := transLog_log s.master (transLogRequest s.slave limit sent) answered
    have relabel {reply : List TransactionT} (entries : ∀ record ∈ reply,
        1 ≤ record.id ∧ logEntry s.master record.id = some record) :
        Synced base { s with master := { s.master with lastslave := lastslave }, reply := reply } :=
      ⟨synced.masterLog, synced.slaveLog, synced.logPrefix, synced.data, synced.separate, entries⟩
    rw [Cluster.step]
    cases answer : transLog s.master (transLogRequest s.slave limit sent) answered with
    | mk status master =>
      rw [answer] at same
      cases same
      cases status with
      | error e => exact relabel fun _ member => (List.not_mem_nil member).elim
      | ok data =>
        exact relabel fun record member =>
          transLog_mem synced.masterLog rfl (congrArg Prod.fst answer) member
  | slaveCommit now =>
    rw [Cluster.step]
    rcases syncNext_cases (succeeding now true) s.slave s.reply with
      ⟨rest, sub, same⟩ | ⟨record, rest, member, sub, next, nonempty, same⟩
    · rw [same]
      exact ⟨synced.masterLog, synced.slaveLog, synced.logPrefix, synced.data, synced.separate,
        fun other inRest => synced.reply other (sub other inRest)⟩
    · have entry := (synced.reply record member).2
      have separate : s.slave.logdb.isSome ∨ ItemsOffLog record.item :=
        synced.separate.imp And.right fun masterOff => masterOff _ record (by omega) entry
      have appended : Appended s.slave (commit (succeeding now true) s.slave record false).2 _ :=
        commit_appended false nonempty rfl rfl separate
      have unchanged : numbered (succeeding now true) s.slave record false = record := by
        simp [numbered, ← next]
      rw [same]
      rw [unchanged] at appended
      exact synced.slaveAppends next entry appended sub

theorem SeparateLogs.step {s : Cluster} (separate : SeparateLogs s) (label : SyncStep) :
    SeparateLogs (s.step label) := by
  cases label with
  | masterCommit now buffTrans transaction => exact ⟨by simpa [Cluster.step] using separate.1, separate.2⟩
  | pull limit sent answered =>
    obtain ⟨lastslave, same⟩ := transLog_log s.master (transLogRequest s.slave limit sent) answered
    rw [Cluster.step]
    cases answer : transLog s.master (transLogRequest s.slave limit sent) answered with
    | mk status master =>
      rw [answer] at same
      cases same
      cases status <;> exact separate
  | slaveCommit now =>
    rw [Cluster.step]
    rcases syncNext_cases (succeeding now true) s.slave s.reply with
      ⟨rest, _, same⟩ | ⟨record, rest, _, _, _, _, same⟩
    · rw [same]
      exact separate
    · rw [same]
      exact ⟨separate.1, by simpa using separate.2⟩

/-- However commits on the master, requests and commits on the slave interleave, the slave's log
stays a prefix of the master's, and its data stays that prefix replayed. -/
theorem slave_follows_master {base : DB} {start : Cluster} (masterLog : LogOf start.master)
    (slaveLog : LogOf start.slave) (logPrefix : LogPrefix start.slave start.master)
    (data : Replayed base start.slave) (idle : start.reply = []) (labels : List SyncStep)
    (offLog : SeparateLogs start ∨ (LogOffLog start.master ∧ ∀ now buffTrans transaction,
      .masterCommit now buffTrans transaction ∈ labels → ItemsOffLog transaction.item)) :
    LogPrefix (Run.final Cluster.step start labels).slave (Run.final Cluster.step start labels).master ∧
      Replayed base (Run.final Cluster.step start labels).slave := by
  have synced : Synced base start :=
    ⟨masterLog, slaveLog, logPrefix, data, offLog.imp_right And.left, by simp [idle]⟩
  have guarded : Run.Guarded Cluster.step (fun s label => label.Separate s) start labels := by
    intro i label here
    rcases offLog with separate | ⟨_, itemsOff⟩
    · have still : SeparateLogs (Run.final Cluster.step start (labels.take i)) :=
        Run.invariant (fun s label (inv : SeparateLogs s) => inv.step label) separate _
      cases label with
      | masterCommit => exact .inl still
      | _ => trivial
    · cases label with
      | masterCommit now buffTrans transaction =>
        exact .inr (itemsOff now buffTrans transaction (List.mem_of_getElem? here))
      | _ => trivial
  have reached : Synced base (Run.final Cluster.step start (labels.take labels.length)) :=
    Run.invariant_of_guarded (fun s label (inv : Synced base s) offLog => inv.step label offLog)
      synced guarded _
  rw [List.take_length] at reached
  exact ⟨reached.logPrefix, reached.data⟩

/-- Two nodes on empty stores, as they are before the first commit. -/
def emptyCluster : Cluster where
  master := { logcounter := 1, isMaster := true }
  slave := { logcounter := 1 }

/-- Two commits with a chunk limit of zero, of which the slave gets one. -/
def twoCommits : List SyncStep :=
  let set (key value : String) : TransactionT :=
    { item := [⟨ascii key, .peer { name := ascii value }, false⟩] }
  [.masterCommit 5 true (set "x" "a"), .masterCommit 6 false (set "x" "b"), .pull 0 7 8, .slaveCommit 9]

theorem slave_follows_master_twoCommits :
    LogPrefix (Run.final Cluster.step emptyCluster twoCommits).slave
        (Run.final Cluster.step emptyCluster twoCommits).master ∧
      Replayed .empty (Run.final Cluster.step emptyCluster twoCommits).slave := by
  have noEntry (id : ℕ) : logEntry emptyCluster.slave id = none := rfl
  refine slave_follows_master (fun _ _ _ has => (Option.some_ne_none _ has.symm).elim)
    (fun _ _ _ has => (Option.some_ne_none _ has.symm).elim)
    ⟨le_rfl, fun id _ => by split <;> exact noEntry id⟩ (fun key _ => ?_) rfl twoCommits
    (.inr ⟨fun id record _ has => (Option.some_ne_none _ has.symm).elim, ?_⟩)
  · change OrderedMap.empty.get? key = (replay .empty (logUpTo emptyCluster.slave 1)).get? key
    rw [show logUpTo emptyCluster.slave 1 = [] from rfl, replay_nil]
  · intro now buffTrans transaction member item inItems
    simp only [twoCommits, List.mem_cons, SyncStep.masterCommit.injEq, reduceCtorEq, List.not_mem_nil,
      or_false] at member
    rcases member with ⟨_, _, rfl⟩ | ⟨_, _, rfl⟩ <;> obtain rfl := List.mem_singleton.mp inItems <;> decide

example : (Run.final Cluster.step emptyCluster twoCommits).slave.logcounter = 2 := by decide

end Identt.Hrpc
