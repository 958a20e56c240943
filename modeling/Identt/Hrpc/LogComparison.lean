import Identt.Hrpc.Promotion
import Identt.Hrpc.SyncServer
import Identt.Lib.Run
import Identt.Store.LogRead
import Identt.Store.Recovery

/-! # Whether the master has the slave's log

Before it pulls, a slave asks the master for one transaction and compares its time with that of its
own. The transaction is the one before the last, so the comparison says nothing about the last one,
and a log of one transaction has none to compare.
-/

namespace Identt.Hrpc

open Store StoreTrans

/-- A call of `Commit`. -/
abbrev CommitCall := CommitEnv × TransactionT × Bool

def commitCall (st : SharedTable) (call : CommitCall) : SharedTable := (commit call.1 st call.2.1 call.2.2).2

/-- A node that started on stores without a log: it has the fence of the log, and a counter of one. -/
structure FreshLog (st : SharedTable) : Prop where
  counter : st.logcounter = 1
  fence : st.logStore.get? (logKey 0) = some (.data .empty)
  empty : ∀ key value, HasType .kLogNode key → st.logStore.get? key = some value → key = logKey 0

/-- What callers hand to `Commit`: a transaction that is not the answer of a lookup that failed, and whose items
keep off the log's keys if log and data share a store. -/
def Committable (st : SharedTable) (call : CommitCall) : Prop :=
  call.2.1.notfound = false ∧ (st.logdb.isSome ∨ ItemsOffLog call.2.1.item)

/-- A node that started without a log and has only committed since. -/
def OnlyCommitted (st : SharedTable) : Prop :=
  ∃ start calls, FreshLog start ∧ Run.Guarded commitCall Committable start calls ∧
    Run.final commitCall start calls = st

/-- Both logs hold the same transaction under an identifier. -/
def Agree (master slave : SharedTable) (id : ℕ) : Prop :=
  ∃ record, logEntry master id = some record ∧ logEntry slave id = some record

/-- Transactions with one identifier and one time are the same. -/
def TellApart (master slave : SharedTable) : Prop :=
  ∀ id left right, 1 ≤ id → logEntry master id = some left → logEntry slave id = some right → left.ts = right.ts →
    left = right

/-- The comparison accepts a slave without transactions, and any other one exactly if the master has its last
transaction, the one with the identifier of its counter. -/
structure ComparesLast (master slave : SharedTable) : Prop where
  blank : (∀ id, 1 ≤ id → logEntry slave id = none) →
    compareLog slave (fun request => some (readOne master request)) = .ok true
  last : (∃ id, 1 ≤ id ∧ (logEntry slave id).isSome) →
    (compareLog slave (fun request => some (readOne master request)) = .ok true ↔ Agree master slave slave.logcounter)

/-- The log of a node that only committed since it started. -/
structure Logged (st : SharedTable) : Prop where
  log : LogOf st
  begun : 1 ≤ st.logcounter
  fence : st.logStore.get? (logKey 0) = some (.data .empty)
  first : logEntry st 1 = none
  found : ∀ id record, 1 ≤ id → logEntry st id = some record → record.notfound = false

section Run

variable {st : SharedTable}

theorem FreshLog.logged (fresh : FreshLog st) : Logged st where
  log key value ofLog has := by
    obtain rfl := fresh.empty key value ofLog has
    exact .inl ⟨rfl, Option.some.inj (has.symm.trans fresh.fence)⟩
  begun := fresh.counter.ge
  fence := fresh.fence
  first := by
    rw [logEntry, Option.bind_eq_none_iff]
    intro value has
    have zero := logKey_inj.mp (fresh.empty _ value (hasType_logKey 1) has)
    contradiction
  found id record positive has := by
    obtain ⟨value, stored, _⟩ := Option.bind_eq_some_iff.mp has
    have zero := logKey_inj.mp (fresh.empty _ value (hasType_logKey id) stored)
    omega

/-- A log with one more transaction. -/
theorem Logged.of_lookup (logged : Logged st) {st' : SharedTable} {record : TransactionT}
    (next : record.id = st.logcounter + 1) (logcounter : st'.logcounter = st.logcounter + 1)
    (lookup : ∀ key, HasType .kLogNode key → st'.logStore.get? key =
      if key = logKey record.id then some (.log record) else st.logStore.get? key)
    (found : record.notfound = false) : Logged st' where
  log := logged.log.of_lookup next logcounter lookup
  begun := by omega
  fence := by
    have differ : logKey 0 ≠ logKey record.id := by
      rw [Ne, logKey_inj]
      omega
    rw [lookup _ (hasType_logKey 0), if_neg differ, logged.fence]
  first := by
    have begun := logged.begun
    rw [logEntry_of_lookup lookup, if_neg (by omega), logged.first]
  found id stored positive has := by
    rw [logEntry_of_lookup lookup] at has
    split at has
    · cases has
      exact found
    · exact logged.found id stored positive has

/-- Whatever happens to its writes, a call of `Commit` leaves such a log. -/
theorem Logged.step (logged : Logged st) {call : CommitCall} (committable : Committable st call) :
    Logged (commitCall st call) := by
  obtain ⟨env, transaction, isMaster⟩ := call
  obtain ⟨found, separate⟩ := committable
  have numberedFound : (numbered env st transaction isMaster).notfound = false := found
  have items : st.logdb.isSome ∨ ItemsOffLog (numbered env st transaction isMaster).item := separate
  rw [commitCall]
  rcases commit_cases env st transaction isMaster with ⟨_, same⟩ | ⟨_, _, same⟩ | ⟨_, _, _, same⟩ |
    ⟨_, _, _, _, lastslave, dbcache, same⟩
  · rw [same]
    exact logged
  · rw [same]
    refine ⟨fun key value ofLog has => ?_, Nat.le_succ_of_le logged.begun, logged.fence, logged.first, logged.found⟩
    rcases logged.log key value ofLog has with fence | ⟨record, here, there, positive, bound⟩
    · exact .inl fence
    · exact .inr ⟨record, here, there, positive, Nat.le_succ_of_le bound⟩
  · rw [same]
    exact logged.of_lookup rfl (afterLog_logcounter ..) (fun key _ => get?_afterLog_logStore ..) numberedFound
  · rw [same]
    refine logged.of_lookup rfl (afterLog_logcounter st _) (fun key ofLog => ?_) numberedFound
    rw [← get?_afterLog_logStore]
    exact afterData_logStore st _ items ofLog

theorem OnlyCommitted.logged (only : OnlyCommitted st) : Logged st := by
  obtain ⟨start, calls, fresh, committable, rfl⟩ := only
  have kept (st : SharedTable) (call : CommitCall) (logged : Logged st) (committable : Committable st call) :
      Logged (commitCall st call) := logged.step committable
  have reached := Run.invariant_of_guarded kept fresh.logged committable calls.length
  rwa [List.take_length] at reached

end Run

section Compare

variable {master slave : SharedTable}

/-- What the master answers to `R_READONE`. -/
theorem readOne_eq (st : SharedTable) (id : ℕ) :
    readOne st { id := id } = (logEntry st id).getD { id := id, notfound := true } := by
  rw [readOne, logEntry]
  cases (st.logStore.get? (logKey id)).bind TransactionT.parse <;> rfl

theorem Logged.readOne_zero {st : SharedTable} (logged : Logged st) : readOne st { id := 0 } = default := by
  rw [readOne_eq, logEntry, logged.fence]
  rfl

/-- A slave with a counter above one is accepted if both logs have the transaction before the counter. -/
theorem compareLog_iff (masterLogged : Logged master) (slaveLogged : Logged slave) (apart : TellApart master slave)
    (above : 2 ≤ slave.logcounter) :
    compareLog slave (fun request => some (readOne master request)) = .ok true ↔
      Agree master slave (slave.logcounter - 1) := by
  have positive : 1 ≤ slave.logcounter - 1 := by omega
  rw [compareLog, if_neg (by omega)]
  simp only [readOne_eq]
  cases hasMaster : logEntry master (slave.logcounter - 1) with
  | none =>
    refine iff_of_false (fun accepted => by cases accepted) ?_
    rintro ⟨record, has, _⟩
    cases hasMaster.symm.trans has
  | some left =>
    rw [Option.getD_some, masterLogged.found _ left positive hasMaster]
    cases hasSlave : logEntry slave (slave.logcounter - 1) with
    | none =>
      refine iff_of_false (fun accepted => by cases accepted) ?_
      rintro ⟨record, _, has⟩
      cases hasSlave.symm.trans has
    | some right =>
      rw [Option.getD_some, slaveLogged.found _ right positive hasSlave]
      have compared : (Except.ok (decide (left.ts = right.ts)) : Except Exn Bool) = .ok true ↔ left.ts = right.ts := by
        simp
      refine compared.trans ⟨fun same => ?_, ?_⟩
      · obtain rfl := apart _ left right positive hasMaster hasSlave same
        exact ⟨left, hasMaster, hasSlave⟩
      · rintro ⟨record, hasLeft, hasRight⟩
        cases hasMaster.symm.trans hasLeft
        cases hasSlave.symm.trans hasRight
        rfl

/-- A slave that has committed nothing is accepted, by comparing the fences. -/
theorem compareLog_blank (masterLogged : Logged master) (slaveLogged : Logged slave) (one : slave.logcounter = 1) :
    compareLog slave (fun request => some (readOne master request)) = .ok true := by
  rw [compareLog, one, if_neg Nat.one_ne_zero]
  simp only [Nat.sub_self, masterLogged.readOne_zero, slaveLogged.readOne_zero]
  rfl

end Compare

section Start

/-- Stores without a log. -/
def NoLog (db : DB) : Prop := ∀ key value, HasType .kLogNode key → db.get? key ≠ some value

theorem NoLog.lastId_eq {db : DB} (noLog : NoLog db) {fixedMissing zeroMissing : String} {id : Option ℕ}
    (read : StoreLevel.lastId (StoreLevel.putFences db) .kMaxNode .kLogNode fixedMissing zeroMissing = .ok id) :
    id = some 0 := by
  have word : 1 < 2 ^ 64 := by omega
  refine lastId_of_contiguous word (fun key value ofLog has => (noLog key value ofLog has).elim)
    (fun id low high => ?_) read
  cases has : db.get? (logKey id) with
  | none =>
    simp only [Option.isSome_none, Bool.false_eq_true, false_iff]
    omega
  | some value => exact (noLog _ value (hasType_logKey id) has).elim

theorem NoLog.get?_putFences {db : DB} (noLog : NoLog db) {key : Bytes} (ofLog : HasType .kLogNode key) :
    (StoreLevel.putFences db).get? key = if key = logKey 0 then some (.data .empty) else none := by
  have absent : db.get? key = none := by
    cases has : db.get? key with
    | none => rfl
    | some value => exact (noLog key value ofLog has).elim
  rw [StoreLevel.get?_putFences, absent, Option.none_or]
  apply if_congr _ rfl rfl
  constructor
  · rintro ⟨keytype, _, rfl⟩
    have same := ofLog.unique (hasType_encodePrimaryKey keytype 0)
    rw [← same]
    rfl
  · rintro rfl
    exact ⟨.kLogNode, by decide, rfl⟩

/-- A node that starts on such stores has a fresh log. -/
theorem freshLog_of_init {disk start : SharedTable} (init : workServerInit disk = .ok start) (data : NoLog disk.maindb)
    (log : ∀ logdb, disk.logdb = some logdb → NoLog logdb) : FreshLog start := by
  obtain ⟨pkey, lkey, opened, readMain, maindb, logdb, _, counter, shared, separate⟩ := workServerInit_eq init
  obtain ⟨_, _, mainId, readMainId, mainLkey⟩ := initializeStore_eq readMain
  have mainZero : lkey = 0 := by
    rw [mainLkey, data.lastId_eq readMainId]
    rfl
  have fences {db : DB} (noLog : NoLog db) (opens : start.logStore = StoreLevel.putFences db) (zero : opened = 0) :
      FreshLog start := by
    refine ⟨by rw [counter, zero]; rfl, ?_, fun key value ofLog has => ?_⟩
    · rw [opens, noLog.get?_putFences (hasType_logKey 0), if_pos rfl]
    · rw [opens, noLog.get?_putFences ofLog] at has
      by_contra other
      rw [if_neg other] at has
      cases has
  cases kept : disk.logdb with
  | none =>
    refine fences data ?_ ((shared kept).trans mainZero)
    rw [SharedTable.logStore, logdb, kept, maindb]
    rfl
  | some store =>
    have noLog := log store kept
    obtain ⟨_, readLog⟩ := separate store kept
    obtain ⟨_, _, logId, readLogId, logLkey⟩ := initializeStore_eq readLog
    refine fences noLog ?_ ?_
    · rw [SharedTable.logStore, logdb, kept]
      rfl
    · rw [logLkey, mainZero, noLog.lastId_eq readLogId]
      rfl

end Start

/-- For every master and slave that committed since they started, whose transactions can be told apart: the
comparison accepts the slaves that it should, and no other, exactly if the slave's counter never moved, or
its log has a transaction and both logs agree just before its counter if and only if they agree at it. -/
theorem comparesLast_iff {master slave : SharedTable} (masterOnly : OnlyCommitted master)
    (slaveOnly : OnlyCommitted slave) (apart : TellApart master slave) :
    ComparesLast master slave ↔ slave.logcounter = 1 ∨ (∃ id, 1 ≤ id ∧ (logEntry slave id).isSome) ∧
      (Agree master slave (slave.logcounter - 1) ↔ Agree master slave slave.logcounter) := by
  have masterLogged := masterOnly.logged
  have slaveLogged := slaveOnly.logged
  have begun := slaveLogged.begun
  rcases Nat.eq_or_lt_of_le begun with one | above
  · refine iff_of_true ⟨fun _ => compareLog_blank masterLogged slaveLogged one.symm, ?_⟩ (.inl one.symm)
    rintro ⟨id, positive, has⟩
    obtain ⟨record, has⟩ := Option.isSome_iff_exists.mp has
    have bound := (slaveLogged.log.entry positive has).2
    obtain rfl : id = 1 := by omega
    cases slaveLogged.first.symm.trans has
  · rw [or_iff_right (by omega : slave.logcounter ≠ 1)]
    have accepted := compareLog_iff masterLogged slaveLogged apart above
    constructor
    · rintro ⟨blank, last⟩
      have some : ∃ id, 1 ≤ id ∧ (logEntry slave id).isSome := by
        by_contra empty
        -- a slave whose writes to the log all failed has nothing to compare
        have nothing : ∀ id, 1 ≤ id → logEntry slave id = none := fun id positive => by
          simpa using not_and.mp (not_exists.mp empty id) positive
        obtain ⟨record, _, has⟩ := accepted.mp (blank nothing)
        cases (nothing _ (by omega)).symm.trans has
      exact ⟨some, accepted.symm.trans (last some)⟩
    · rintro ⟨⟨id, positive, has⟩, agree⟩
      refine ⟨fun nothing => ?_, fun _ => accepted.trans agree⟩
      rw [nothing id positive] at has
      contradiction

/-- The call that sets a name at a time. -/
def nameCall (now : UInt64) (name : String) : CommitCall := ({ now := now }, nameTransaction name, true)

theorem freshLog_startedEmpty : FreshLog startedEmpty :=
  freshLog_of_init workServerInit_empty (fun _ value _ has => (Option.some_ne_none value has.symm).elim)
    fun _ kept => by cases kept

theorem nameCalls_committable (st : SharedTable) (calls : List (UInt64 × String)) :
    Run.Guarded commitCall Committable st (calls.map fun call => nameCall call.1 call.2) := by
  intro i call here
  obtain ⟨⟨now, name⟩, _, rfl⟩ := List.mem_map.mp (List.mem_of_getElem? here)
  refine ⟨rfl, .inr fun item member => ?_⟩
  obtain rfl := List.mem_singleton.mp member
  change ¬ HasType .kLogNode (ascii "x")
  decide

theorem tellApart_self (st : SharedTable) : TellApart st st :=
  fun _ _ _ _ left right _ => Option.some.inj (left.symm.trans right)

/-- A node that set names at some times. -/
def nodeAfter (calls : List (UInt64 × String)) : SharedTable :=
  Run.final commitCall startedEmpty (calls.map fun call => nameCall call.1 call.2)

theorem onlyCommitted_nodeAfter (calls : List (UInt64 × String)) : OnlyCommitted (nodeAfter calls) :=
  ⟨startedEmpty, _, freshLog_startedEmpty, nameCalls_committable _ calls, rfl⟩

theorem comparesLast_iff_copy : ComparesLast (nodeAfter [(5, "a")]) (nodeAfter [(5, "a")]) ↔
    (nodeAfter [(5, "a")]).logcounter = 1 ∨ (∃ id, 1 ≤ id ∧ (logEntry (nodeAfter [(5, "a")]) id).isSome) ∧
      (Agree (nodeAfter [(5, "a")]) (nodeAfter [(5, "a")]) ((nodeAfter [(5, "a")]).logcounter - 1) ↔
        Agree (nodeAfter [(5, "a")]) (nodeAfter [(5, "a")]) (nodeAfter [(5, "a")]).logcounter) :=
  comparesLast_iff (onlyCommitted_nodeAfter _) (onlyCommitted_nodeAfter _) (tellApart_self _)

/-- A slave that has all of its master's one transaction is refused, and one whose last transaction differs
from the master's is accepted. -/
theorem copy_refused : OnlyCommitted (nodeAfter [(5, "a")]) ∧ TellApart (nodeAfter [(5, "a")]) (nodeAfter [(5, "a")]) ∧
    compareLog (nodeAfter [(5, "a")]) (fun request => some (readOne (nodeAfter [(5, "a")]) request)) =
      .error (.initial "Master does not have last log, mismatch") ∧
    ¬ ComparesLast (nodeAfter [(5, "a")]) (nodeAfter [(5, "a")]) ∧
    compareLog (nodeAfter [(5, "a"), (7, "c")]) (fun request => some (readOne (nodeAfter [(5, "a"), (6, "b")]) request)) =
      .ok true ∧
    logEntry (nodeAfter [(5, "a"), (7, "c")]) 3 ≠ logEntry (nodeAfter [(5, "a"), (6, "b")]) 3 := by
  have refused : compareLog (nodeAfter [(5, "a")]) (fun request => some (readOne (nodeAfter [(5, "a")]) request)) =
      .error (.initial "Master does not have last log, mismatch") := by decide +kernel
  have stored : logEntry (nodeAfter [(5, "a")]) 2 = some { nameTransaction "a" with id := 2, ts := 5 } := by
    decide +kernel
  refine ⟨onlyCommitted_nodeAfter _, tellApart_self _, refused, fun compares => ?_, by decide +kernel, by decide +kernel⟩
  have accepted := (compares.last ⟨2, by omega, by rw [stored]; rfl⟩).mpr ⟨_, stored, stored⟩
  cases refused.symm.trans accepted

end Identt.Hrpc
