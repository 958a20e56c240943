import Identt.Hrpc.Replication
import Identt.Store.LogRead
import Identt.Store.Recovery

/-! # Pulling until the logs are equal

Each round of `SyncFirst` takes at least one transaction over from a master that is ahead, and the round
that takes over the last one ends the loop. What is left of the master's log decreases, whatever the
chunk size.
-/

namespace Identt.Hrpc

open Store StoreTrans

/-- The writes of a round succeed. -/
def RoundEnv.Succeeds (env : RoundEnv) : Prop := env.commit.logPut = true ∧ env.commit.dataWrite = true

/-- A node that can take over a master's log: what it has is the beginning of it, and it answers no lookups
from memory. -/
structure Pulling (master slave : SharedTable) : Prop where
  masterLog : LogOf master
  contiguous : Contiguous master
  /-- A commit logs no transaction without items. -/
  nonempty : ∀ id record, 1 ≤ id → logEntry master id = some record → record.item ≠ []
  slaveLog : LogOf slave
  begun : 1 ≤ slave.logcounter
  logPrefix : LogPrefix slave master
  separate : slave.logdb.isSome ∨ LogOffLog master
  unused : slave.lookupUsesLocal = false

/-- Both logs have the same counter and the same transactions. -/
def SameLog (master slave : SharedTable) : Prop :=
  slave.logcounter = master.logcounter ∧ ∀ id, 1 ≤ id → logEntry slave id = logEntry master id

section Round

variable {master slave : SharedTable}

theorem Pulling.gapFree (pulling : Pulling master slave) : GapFree master 2 where
  log := pulling.masterLog
  positive := by omega
  bound := by
    have begun := pulling.begun
    have behind := pulling.logPrefix.1
    omega
  entries := pulling.contiguous

/-- A slave whose counter is the master's has the master's log. -/
theorem LogPrefix.sameLog (logPrefix : LogPrefix slave master) (masterLog : LogOf master)
    (same : slave.logcounter = master.logcounter) : SameLog master slave := by
  refine ⟨same, fun id positive => ?_⟩
  rw [logPrefix.2 id positive, same]
  split
  · rfl
  · next beyond =>
    cases has : logEntry master id with
    | none => rfl
    | some record => exact (beyond (masterLog.entry positive has).2).elim

/-- The slave commits one transaction of the master's log. -/
theorem Pulling.commit (pulling : Pulling master slave) {env : CommitEnv} (logged : env.logPut = true)
    (written : env.dataWrite = true) {record : TransactionT} (next : record.id = slave.logcounter + 1)
    (entry : logEntry master record.id = some record) :
    ∃ slave', commit env slave record false = (.ok (), slave') ∧ Pulling master slave' ∧
      slave'.logcounter = slave.logcounter + 1 := by
  have nonempty := pulling.nonempty record.id record (by omega) entry
  have separate : slave.logdb.isSome ∨ ItemsOffLog record.item :=
    pulling.separate.imp_right fun masterOff => masterOff record.id record (by omega) entry
  have unchanged : numbered env slave record false = record := by simp [numbered, ← next]
  have appended : Appended slave (StoreTrans.commit env slave record false).2 _ :=
    commit_appended false nonempty logged written separate
  rw [unchanged] at appended
  have accepted : (StoreTrans.commit env slave record false).1 = .ok () :=
    (commit_written slave false nonempty logged written).1.mpr fun uses => by
      rw [pulling.unused] at uses
      contradiction
  refine ⟨_, Prod.ext accepted rfl, ⟨pulling.masterLog, pulling.contiguous, pulling.nonempty,
    appended.logOf pulling.slaveLog, ?_, pulling.logPrefix.append pulling.masterLog next entry appended, ?_, ?_⟩,
    appended.logcounter⟩
  · rw [appended.logcounter]
    omega
  · rw [appended.build]
    exact pulling.separate
  · rw [commit_lookupUsesLocal, pulling.unused]

/-- It commits all transactions that follow its own, if they are the master's. -/
theorem Pulling.commitReceived (pulling : Pulling master slave) {env : CommitEnv} (logged : env.logPut = true)
    (written : env.dataWrite = true) {received : List TransactionT}
    (run : received.map TransactionT.id = List.range' (slave.logcounter + 1) received.length)
    (entries : ∀ record ∈ received, logEntry master record.id = some record) :
    ∃ slave', commitReceived env slave received = (.ok (), slave') ∧ Pulling master slave' ∧
      slave'.logcounter = slave.logcounter + received.length := by
  induction received generalizing slave with
  | nil => exact ⟨slave, rfl, pulling, rfl⟩
  | cons record rest ih =>
    rw [List.map_cons, List.length_cons, List.range'_succ, List.cons.injEq] at run
    obtain ⟨next, runRest⟩ := run
    obtain ⟨slave', committed, pulling', counter⟩ :=
      pulling.commit logged written next (entries record (List.mem_cons_self ..))
    obtain ⟨slave'', committedRest, pulling'', counter'⟩ := ih pulling' (by rw [counter]; exact runRest)
      fun later member => entries later (List.mem_cons_of_mem _ member)
    refine ⟨slave'', ?_, pulling'', ?_⟩
    · rw [Hrpc.commitReceived, if_neg (by omega), committed]
      exact committedRest
    · rw [counter', counter, List.length_cons]
      omega

/-- The master's answer does not change its log. -/
theorem Pulling.of_master (pulling : Pulling master slave) (lastslave : Bytes) :
    Pulling { master with lastslave := lastslave } slave :=
  ⟨pulling.masterLog, pulling.contiguous, pulling.nonempty, pulling.slaveLog, pulling.begun, pulling.logPrefix,
    pulling.separate, pulling.unused⟩

theorem pullRound_eq {limit : ℕ} {env : RoundEnv} {data : TransListT} {master' slave' : SharedTable}
    (answered : transLog master (transLogRequest slave limit env.sent) env.answered = (.ok data, master'))
    (committed : Hrpc.commitReceived env.commit slave data.trans = (.ok (), slave')) :
    pullRound limit env master slave = (.ok (data.lastid = data.currid), master', slave') := by
  rw [pullRound, answered]
  simp only [committed]

/-- What the master answers a slave that is behind. -/
theorem Pulling.transLog_behind (pulling : Pulling master slave) (word : master.logcounter < 2 ^ 64)
    (behind : slave.logcounter < master.logcounter) (limit : ℕ) (sent now : UInt64) :
    ∃ data, transLog master (transLogRequest slave limit sent) now = (.ok data, master) ∧
      data.trans = (logBehind master slave.logcounter).take (limit + 1) ∧
      data.lastid = slave.logcounter + min (master.logcounter - slave.logcounter) (limit + 1) ∧
      data.currid = master.logcounter := by
  have goesOn : 2 ≤ (transLogRequest slave limit sent).lastid + 1 := Nat.succ_le_succ pulling.begun
  have answers := pulling.gapFree.readLog_behind word goesOn behind now
  have current : ¬ (transLogRequest slave limit sent).lastid = master.logcounter := behind.ne
  have ahead : ¬ (transLogRequest slave limit sent).lastid > master.logcounter := not_lt.mpr behind.le
  rw [transLog, if_neg ahead, if_neg current, answers]
  exact ⟨_, rfl, List.nil_append _, rfl, rfl⟩

/-- And one that is not. -/
theorem transLog_current (same : slave.logcounter = master.logcounter) (limit : ℕ) (sent now : UInt64) :
    ∃ data lastslave, transLog master (transLogRequest slave limit sent) now =
        (.ok data, { master with lastslave := lastslave }) ∧
      data.trans = [] ∧ data.lastid = data.currid := by
  have current : (transLogRequest slave limit sent).lastid = master.logcounter := same
  rw [transLog, if_neg (by omega), if_pos current]
  split
  · exact ⟨_, _, rfl, rfl, current⟩
  · exact ⟨_, master.lastslave, rfl, rfl, current⟩

/-- A round ends with the two counters equal, and says so, or with a slave that is further on. -/
theorem Pulling.pullRound (pulling : Pulling master slave) (word : master.logcounter < 2 ^ 64) {env : RoundEnv}
    (succeeds : env.Succeeds) (limit : ℕ) :
    ∃ lastslave slave', pullRound limit env master slave = (.ok (slave'.logcounter = master.logcounter),
        { master with lastslave := lastslave }, slave') ∧
      Pulling { master with lastslave := lastslave } slave' ∧
      (slave'.logcounter = master.logcounter ∨ slave.logcounter < slave'.logcounter) := by
  have begun := pulling.begun
  rcases Nat.lt_or_eq_of_le pulling.logPrefix.1 with behind | current
  · obtain ⟨data, answered, trans, lastid, currid⟩ :=
      pulling.transLog_behind word behind limit env.sent env.answered
    have goesOn : 2 ≤ slave.logcounter + 1 := Nat.succ_le_succ begun
    have length := (pulling.gapFree.logBehind_run goesOn).2
    have ids := pulling.gapFree.logBehind_ids goesOn
    have count : data.trans.length = min (limit + 1) (master.logcounter - slave.logcounter) := by
      rw [trans, List.length_take, length]
    have run : data.trans.map TransactionT.id = List.range' (slave.logcounter + 1) data.trans.length := by
      rw [count, trans, List.map_take, ids, length]
      rcases Nat.le_total (limit + 1) (master.logcounter - slave.logcounter) with few | many
      · rw [Nat.min_eq_left few, List.take_range'_of_length_ge few]
      · rw [Nat.min_eq_right many, List.take_range'_of_length_le many]
    obtain ⟨slave', committed, pulling', counter⟩ := pulling.commitReceived succeeds.1 succeeds.2 run
      fun record member => ((mem_logBehind pulling.masterLog).mp (List.mem_of_mem_take (trans ▸ member))).2
    have ends : (data.lastid = data.currid) = (slave'.logcounter = master.logcounter) := by
      rw [lastid, currid, counter, count, Nat.min_comm]
    have ran := pullRound_eq answered committed
    refine ⟨master.lastslave, slave', ?_, pulling', .inr (by omega)⟩
    simp only [ran, ends]
  · obtain ⟨data, lastslave, answered, trans, ends⟩ := transLog_current current limit env.sent env.answered
    have committed : Hrpc.commitReceived env.commit slave data.trans = (.ok (), slave) := by
      rw [trans]
      rfl
    have ran := pullRound_eq answered committed
    refine ⟨lastslave, slave, ?_, pulling.of_master lastslave, .inl current⟩
    simp only [ran, ends, current]

end Round

/-- The loop that pulls ends, and then the slave has the master's log: after at most as many rounds as the
slave lacks transactions, and one more. -/
theorem pullLoop_ends {master slave : SharedTable} (pulling : Pulling master slave)
    (word : master.logcounter < 2 ^ 64) (limit : ℕ) {env : ℕ → RoundEnv} (succeeds : ∀ i, (env i).Succeeds) :
    ∃ rounds ≤ master.logcounter - slave.logcounter + 1, ∃ master' slave',
      pullLoop limit rounds env master slave = some (.ok (), master', slave') ∧
        SameLog master master' ∧ SameLog master slave' := by
  induction left : master.logcounter - slave.logcounter using Nat.strong_induction_on generalizing master slave env with
  | _ left ih =>
    obtain ⟨lastslave, slave', ran, pulling', progress⟩ := pulling.pullRound word (succeeds 0) limit
    by_cases done : slave'.logcounter = master.logcounter
    · refine ⟨1, by omega, { master with lastslave := lastslave }, slave', ?_, ⟨rfl, fun _ _ => rfl⟩,
        pulling'.logPrefix.sameLog pulling'.masterLog done⟩
      rw [pullLoop, ran]
      simp only [done, decide_true]
    · have further : slave.logcounter < slave'.logcounter := progress.resolve_left done
      have bound : slave'.logcounter ≤ master.logcounter := pulling'.logPrefix.1
      obtain ⟨rounds, few, master', slave'', ends, sameMaster, sameSlave⟩ :=
        ih (master.logcounter - slave'.logcounter) (by omega) pulling' word (fun i => succeeds (i + 1)) rfl
      refine ⟨rounds + 1, by omega, master', slave'', ?_, sameMaster, sameSlave⟩
      rw [pullLoop, ran]
      simp only [done, decide_false]
      exact ends

/-- The two transactions of that master, and a slave without any. -/
theorem pulling_twiceCommitted : Pulling twiceCommitted { logcounter := 1 } := by
  have counter : twiceCommitted.logcounter = 3 := by decide
  have second : logEntry twiceCommitted 2 = some { nameTransaction "a" with id := 2, ts := 5 } := by decide +kernel
  have third : logEntry twiceCommitted 3 = some { nameTransaction "b" with id := 3, ts := 6 } := by decide +kernel
  have named (id : ℕ) (record : TransactionT) (positive : 1 ≤ id) (has : logEntry twiceCommitted id = some record) :
      ∃ name, record.item = (nameTransaction name).item := by
    have bounds := (gapFree_twiceCommitted.entries id positive).mp (by rw [has]; rfl)
    rw [counter] at bounds
    rcases (by omega : id = 2 ∨ id = 3) with rfl | rfl
    · obtain rfl := Option.some.inj (second.symm.trans has)
      exact ⟨"a", rfl⟩
    · obtain rfl := Option.some.inj (third.symm.trans has)
      exact ⟨"b", rfl⟩
  have empty (id : ℕ) : logEntry { logcounter := 1 } id = none := rfl
  refine ⟨gapFree_twiceCommitted.log, gapFree_twiceCommitted.entries, fun id record positive has => ?_,
    fun key value _ has => (Option.some_ne_none value has.symm).elim, le_rfl, ⟨by decide, fun id positive => ?_⟩,
    .inr fun id record positive has item member => ?_, rfl⟩
  · obtain ⟨name, items⟩ := named id record positive has
    rw [items]
    simp [nameTransaction]
  · rw [empty]
    split
    · next first =>
      change id ≤ 1 at first
      cases has : logEntry twiceCommitted id with
      | none => rfl
      | some record =>
        have bounds := (gapFree_twiceCommitted.entries id positive).mp (by rw [has]; rfl)
        omega
    · rfl
  · obtain ⟨name, items⟩ := named id record positive has
    rw [items] at member
    obtain rfl := List.mem_singleton.mp member
    change ¬ HasType .kLogNode (ascii "x")
    decide

theorem pullLoop_ends_twiceCommitted :
    ∃ rounds ≤ twiceCommitted.logcounter - 1 + 1, ∃ master' slave',
      pullLoop 1 rounds (fun _ => ⟨7, 8, succeeding 9 true⟩) twiceCommitted { logcounter := 1 } =
          some (.ok (), master', slave') ∧
        SameLog twiceCommitted master' ∧ SameLog twiceCommitted slave' :=
  pullLoop_ends pulling_twiceCommitted (by decide) 1 fun _ => ⟨rfl, rfl⟩

end Identt.Hrpc
