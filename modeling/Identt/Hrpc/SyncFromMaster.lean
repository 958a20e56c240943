import Mathlib.Data.List.DropRight
import Identt.Hrpc.BufferDrain
import Identt.Hrpc.Election
import Identt.Hrpc.HostMessages
import Identt.Store.LogSteps

/-! # The loop of a slave (`SyncFromMaster`)

A round takes what was pushed, asks the master and commits the answer. Rounds without an answer are
counted: the time of the first one is kept, after the tenth all others are told, and after the twentieth a
master is elected. An answer starts the count again.
-/

namespace Identt.Hrpc

open Store StoreTrans

/-- The calls of the loop that concern all nodes. -/
inductive KeeperCall where
  | hostUpdate
  | masterUpdate (cutoff : UInt64)
deriving DecidableEq, Repr, Inhabited

inductive LoopStatus where
  | running
  /-- The loop has returned, since the node is the master now. -/
  | elected
  | threw (e : Exn)
deriving DecidableEq

structure SyncLoop where
  slave : Slave
  failcount : ℕ := 0
  faildetected : UInt64 := 0
  status : LoopStatus := .running
  calls : List KeeperCall := []

/-- What the environment decides in a round: what reached the node since the last one, how its commits go, the
transactions of the answer if there is one, and what an election meets. -/
structure SyncRound where
  heard : List HostMessage := []
  pushed : List TransactionT := []
  env : ℕ → CommitEnv
  answer : Option (List TransactionT)
  now : UInt64
  tries : List Bool := []

/-- The loop over the received transactions, which ends with what `Commit` throws. -/
def commitAnswer (env : ℕ → CommitEnv) (st : SharedTable) : List TransactionT → Except Exn Unit × SharedTable
  | [] => (.ok (), st)
  | transaction :: rest =>
    if transaction.id ≠ st.logcounter + 1 then (.ok (), st) -- out of sync
    else
      match commit (env transaction.id) st transaction false with -- as slave
      | (.ok (), st) => commitAnswer env st rest
      | (.error e, st) => (.error e, st)

/-- The node when the next round begins. -/
def SyncRound.arrived (round : SyncRound) (slave : Slave) : Slave :=
  round.pushed.foldl (fun slave data => (buffTrans slave data).2)
    { slave with table := deliverAll slave.table round.heard }

def syncRound (loop : SyncLoop) (round : SyncRound) : SyncLoop :=
  match loop.status with
  | .running =>
    -- what was pushed is swapped for nothing, and `data` is clear, so the count stays as it is
    let slave := drain round.env (round.arrived loop.slave)
    match round.answer with
    | some received =>
      match commitAnswer round.env slave.table received with
      | (.ok (), table) => { loop with slave := { slave with table := table }, failcount := 0 }
      | (.error e, table) => { loop with slave := { slave with table := table }, status := .threw e }
    | none =>
      let loop := { loop with slave := slave, failcount := loop.failcount + 1 }
      if loop.failcount = 1 then { loop with faildetected := round.now }
      else if loop.failcount = 10 then { loop with calls := loop.calls ++ [.hostUpdate] }
      else if loop.failcount = 20 then
        let table := masterUpdate loop.faildetected round.tries slave.table
        { loop with
          slave := { slave with table := table }
          status := if table.isMaster then .elected else .running
          calls := loop.calls ++ [.masterUpdate loop.faildetected] }
      else loop
  | _ => loop

/-- The rounds without an answer since the last one with an answer. -/
def missed (rounds : List SyncRound) : List SyncRound := rounds.rtakeWhile (·.answer.isNone)

/-- What the loop has to call after these rounds. -/
def callAfter (rounds : List SyncRound) : Option KeeperCall :=
  if (missed rounds).length = 10 then some .hostUpdate
  else if (missed rounds).length = 20 then (missed rounds).head?.map fun first => .masterUpdate first.now
  else none

/-- Whether a slave that calls for an election elects itself, with what reached it before. -/
def ElectsItself (slave : Slave) (round : SyncRound) (cutoff : UInt64) : Prop :=
  elect cutoff (round.arrived slave).table = (round.arrived slave).table.thisurl

section Round

theorem arrived_table (slave : Slave) (round : SyncRound) :
    (round.arrived slave).table = deliverAll slave.table round.heard := by
  have pushes (slave : Slave) (pushed : List TransactionT) :
      (pushed.foldl (fun slave data => (buffTrans slave data).2) slave).table = slave.table := by
    induction pushed generalizing slave with
    | nil => rfl
    | cons data rest ih => exact (ih _).trans (buffTrans_table slave data)
  exact pushes _ _

theorem arrived_isMaster (slave : Slave) (round : SyncRound) :
    (round.arrived slave).table.isMaster = slave.table.isMaster := by
  rw [arrived_table, deliverAll_isMaster]

theorem commitAnswer_isMaster (env : ℕ → CommitEnv) (st : SharedTable) (received : List TransactionT) :
    (commitAnswer env st received).2.isMaster = st.isMaster := by
  induction received generalizing st with
  | nil => rfl
  | cons transaction rest ih =>
    rw [commitAnswer]
    split
    · rfl
    · have kept : (commit (env transaction.id) st transaction false).2.isMaster = st.isMaster := commit_isMaster
      split
      · next after committed =>
        rw [committed] at kept
        exact (ih after).trans kept
      · next after failed =>
        rw [failed] at kept
        exact kept

/-- What a round does to a loop that runs on a slave. -/
theorem syncRound_cases {loop : SyncLoop} (running : loop.status = .running)
    (slave : loop.slave.table.isMaster = false) (round : SyncRound) :
    (∃ received table e, round.answer = some received ∧ table.isMaster = false ∧ syncRound loop round =
      { loop with slave := ⟨table, []⟩, status := .threw e }) ∨
    (∃ received table, round.answer = some received ∧ table.isMaster = false ∧ syncRound loop round =
      { loop with slave := ⟨table, []⟩, failcount := 0 }) ∨
    (round.answer = none ∧ loop.failcount + 1 ≠ 20 ∧ ∃ table, table.isMaster = false ∧ syncRound loop round =
      { loop with
        slave := ⟨table, []⟩
        failcount := loop.failcount + 1
        faildetected := if loop.failcount + 1 = 1 then round.now else loop.faildetected
        calls := if loop.failcount + 1 = 10 then loop.calls ++ [.hostUpdate] else loop.calls }) ∨
    (round.answer = none ∧ loop.failcount + 1 = 20 ∧ ∃ table,
      (table.isMaster = true ↔ ElectsItself loop.slave round loop.faildetected) ∧ syncRound loop round =
      { loop with
        slave := ⟨table, []⟩
        failcount := loop.failcount + 1
        status := if table.isMaster then .elected else .running
        calls := loop.calls ++ [.masterUpdate loop.faildetected] }) := by
  have arrived : (round.arrived loop.slave).table.isMaster = false := (arrived_isMaster loop.slave round).trans slave
  simp only [syncRound, running, drain_eq]
  cases answer : round.answer with
  | some received =>
    have kept := commitAnswer_isMaster round.env (round.arrived loop.slave).table received
    cases result : commitAnswer round.env (round.arrived loop.slave).table received with
    | mk status table =>
      rw [result] at kept
      cases status with
      | error e => exact .inl ⟨received, table, e, rfl, kept.trans arrived, by simp [result]⟩
      | ok => exact .inr (.inl ⟨received, table, rfl, kept.trans arrived, by simp [result]⟩)
  | none =>
    by_cases twenty : loop.failcount + 1 = 20
    · refine .inr (.inr (.inr ⟨rfl, twenty, _, masterUpdate_isMaster loop.faildetected round.tries arrived, ?_⟩))
      simp [twenty]
    · refine .inr (.inr (.inl ⟨rfl, twenty, _, arrived, ?_⟩))
      simp only [twenty, if_false]
      split_ifs <;> simp_all

/-- A loop that has ended does nothing more. -/
theorem syncRound_of_ended {loop : SyncLoop} (ended : loop.status ≠ .running) (round : SyncRound) :
    syncRound loop round = loop := by
  rw [syncRound]
  split
  · contradiction
  · rfl

end Round

section Missed

variable (past : List SyncRound) {round : SyncRound}

theorem missed_answered {received : List TransactionT} (answer : round.answer = some received) :
    missed (past ++ [round]) = [] := List.rtakeWhile_concat_neg _ _ _ (by simp [answer])

theorem missed_unanswered (answer : round.answer = none) : missed (past ++ [round]) = missed past ++ [round] :=
  List.rtakeWhile_concat_pos _ _ _ (by simp [answer])

/-- The calls up to a round are those before it and its own. -/
theorem calls_concat (round : SyncRound) : (past ++ [round]).inits.filterMap callAfter =
    past.inits.filterMap callAfter ++ (callAfter (past ++ [round])).toList := by
  rw [List.inits_append, List.filterMap_append]
  cases called : callAfter (past ++ [round]) <;> simp [called]

end Missed

/-- What holds of the loop after some rounds. -/
structure Counts (past : List SyncRound) (loop : SyncLoop) : Prop where
  role : loop.slave.table.isMaster = true ↔ loop.status = .elected
  failcount : loop.status = .running → loop.failcount = (missed past).length
  faildetected : loop.status = .running → ∀ first ∈ (missed past).head?, loop.faildetected = first.now
  calls : loop.status = .running → loop.calls = past.inits.filterMap callAfter

/-- The round ends the loop with the slave as the master. -/
def ElectedIn (past : List SyncRound) (loop : SyncLoop) (round : SyncRound) : Prop :=
  loop.status = .running ∧ ∃ cutoff, callAfter (past ++ [round]) = some (.masterUpdate cutoff) ∧
    ElectsItself loop.slave round cutoff

section Counts

variable {past : List SyncRound} {loop : SyncLoop}

theorem Counts.slave (counts : Counts past loop) (running : loop.status = .running) :
    loop.slave.table.isMaster = false := by
  rw [← Bool.not_eq_true, counts.role, running]
  simp

/-- The call of a round without an answer, from what the loop has counted. -/
theorem Counts.callAfter_unanswered (counts : Counts past loop) (running : loop.status = .running)
    {round : SyncRound} (answer : round.answer = none) : callAfter (past ++ [round]) =
      if loop.failcount + 1 = 10 then some .hostUpdate
      else if loop.failcount + 1 = 20 then some (.masterUpdate loop.faildetected)
      else none := by
  rw [callAfter, missed_unanswered past answer, List.length_append, List.length_singleton, ← counts.failcount running]
  split_ifs with ten twenty
  · rfl
  · -- of twenty rounds, the first is one of those before
    have counted := counts.failcount running
    cases begun : missed past with
    | nil =>
      rw [begun, List.length_nil] at counted
      omega
    | cons first rest =>
      have detected := counts.faildetected running first (by rw [begun]; rfl)
      rw [detected]
      rfl
  · rfl

/-- The time that is kept is that of the first of the rounds without an answer. -/
theorem Counts.faildetected_unanswered (counts : Counts past loop) (running : loop.status = .running)
    {round : SyncRound} (answer : round.answer = none) {first : SyncRound}
    (isFirst : first ∈ (missed (past ++ [round])).head?) :
    (if loop.failcount + 1 = 1 then round.now else loop.faildetected) = first.now := by
  have counted := counts.failcount running
  rw [missed_unanswered past answer] at isFirst
  cases begun : missed past with
  | nil =>
    rw [begun] at counted isFirst
    obtain rfl := Option.some.inj isFirst
    rw [if_pos (by rw [counted]; rfl)]
  | cons earlier rest =>
    rw [begun] at isFirst counted
    obtain rfl := Option.some.inj isFirst
    rw [if_neg (by rw [counted, List.length_cons]; omega)]
    exact counts.faildetected running earlier (by rw [begun]; rfl)

theorem Counts.callAfter_answered {round : SyncRound} {received : List TransactionT}
    (answer : round.answer = some received) : callAfter (past ++ [round]) = none := by
  rw [callAfter, missed_answered past answer]
  rfl

theorem Counts.step (counts : Counts past loop) (round : SyncRound) :
    Counts (past ++ [round]) (syncRound loop round) ∧
      ((syncRound loop round).status = .elected ↔ loop.status = .elected ∨ ElectedIn past loop round) := by
  by_cases running : loop.status = .running
  · have notYet : loop.status ≠ .elected := by simp [running]
    rcases syncRound_cases running (counts.slave running) round with ⟨received, table, e, answer, slave, after⟩ |
      ⟨received, table, answer, slave, after⟩ | ⟨answer, count, table, slave, after⟩ | ⟨answer, count, table, role, after⟩
    · rw [after]
      refine ⟨⟨by simp [slave], by simp, by simp, by simp⟩, ?_⟩
      have noCall := @callAfter_answered past round received answer
      simp [ElectedIn, noCall, notYet]
    · rw [after]
      have noCall := @callAfter_answered past round received answer
      refine ⟨⟨?_, fun _ => ?_, fun _ first => ?_, fun _ => ?_⟩, ?_⟩
      · simp [slave, running]
      · rw [missed_answered past answer]
        rfl
      · rw [missed_answered past answer]
        simp
      · rw [calls_concat, noCall, Option.toList_none, List.append_nil]
        exact counts.calls running
      · simp [ElectedIn, noCall, running]
    · rw [after]
      have call := counts.callAfter_unanswered running answer
      refine ⟨⟨?_, fun _ => ?_, fun _ first => ?_, fun _ => ?_⟩, ?_⟩
      · simp [slave, running]
      · rw [missed_unanswered past answer, List.length_append, List.length_singleton, ← counts.failcount running]
      · exact counts.faildetected_unanswered running answer
      · rw [calls_concat, call, counts.calls running]
        split_ifs <;> simp
      · rw [if_neg count] at call
        have noElection (cutoff : UInt64) : callAfter (past ++ [round]) ≠ some (.masterUpdate cutoff) := by
          rw [call]
          split_ifs <;> simp
        simp [ElectedIn, noElection, running]
    · rw [after]
      have call := counts.callAfter_unanswered running answer
      rw [if_neg (by omega), if_pos count] at call
      have elected : ElectedIn past loop round ↔ table.isMaster = true := by
        rw [role, ElectedIn, call]
        simp [running]
      refine ⟨⟨?_, fun still => ?_, fun still first => ?_, fun still => ?_⟩, ?_⟩
      · cases table.isMaster <;> simp
      · rw [missed_unanswered past answer, List.length_append, List.length_singleton, ← counts.failcount running]
      · intro isFirst
        have detected := counts.faildetected_unanswered running answer isFirst
        rwa [if_neg (by omega)] at detected
      · rw [calls_concat, call, counts.calls running]
        rfl
      · rw [elected]
        cases table.isMaster <;> simp [running]
  · rw [syncRound_of_ended running]
    refine ⟨⟨counts.role, fun still => (running still).elim, fun still => (running still).elim,
      fun still => (running still).elim⟩, ?_⟩
    simp [ElectedIn, running]

end Counts

theorem counts_run {slave : Slave} (isSlave : slave.table.isMaster = false) (rounds : List SyncRound) :
    Counts rounds (Run.final syncRound { slave := slave } rounds) := by
  refine @Run.history _ _ syncRound Counts { slave := slave } ?_ ?_ rounds
  · exact ⟨by simp [isSlave], fun _ => rfl, fun _ _ first => by contradiction, fun _ => rfl⟩
  · exact fun past round counts => (counts.step round).1

/-- In every run of the loop: the slave becomes the master exactly if the loop ends with its election; that takes
twenty rounds in a row without an answer, of which the last one finds nobody ahead that was heard of since the first;
and until the loop ends, it has told the others after exactly each tenth and called for an election after exactly
each twentieth round in a row without an answer. -/
theorem slave_elects_itself_iff {slave : Slave} (isSlave : slave.table.isMaster = false) (rounds : List SyncRound) :
    let loop := Run.final syncRound { slave := slave } rounds
    (loop.slave.table.isMaster = true ↔ loop.status = .elected) ∧
    (loop.status = .elected ↔ ∃ n round, rounds[n]? = some round ∧
      ElectedIn (rounds.take n) (Run.final syncRound { slave := slave } (rounds.take n)) round) ∧
    (loop.status = .running → loop.calls = rounds.inits.filterMap callAfter) := by
  intro loop
  have counts : Counts rounds loop := counts_run isSlave rounds
  refine ⟨counts.role, ?_, counts.calls⟩
  subst loop
  clear counts
  induction rounds using List.reverseRecOn with
  | nil => simp
  | append_singleton past round ih =>
    rw [Run.final_concat, ((counts_run isSlave past).step round).2, ih]
    constructor
    · rintro (⟨n, earlier, here, elected⟩ | elected)
      · have bound := (List.getElem?_eq_some_iff.mp here).1
        refine ⟨n, earlier, by rwa [List.getElem?_append_left bound], ?_⟩
        rwa [List.take_append_of_le_length bound.le]
      · exact ⟨past.length, round, by simp, by rwa [List.take_left]⟩
    · rintro ⟨n, other, here, elected⟩
      rcases Nat.lt_or_ge n past.length with earlier | last
      · rw [List.getElem?_append_left earlier] at here
        rw [List.take_append_of_le_length earlier.le] at elected
        exact .inl ⟨n, other, here, elected⟩
      · have isLast : n = past.length := by
          have bound := (List.getElem?_eq_some_iff.mp here).1
          rw [List.length_append, List.length_singleton] at bound
          omega
        subst isLast
        rw [List.getElem?_append_right le_rfl, Nat.sub_self] at here
        obtain rfl := Option.some.inj here
        rw [List.take_left] at elected
        exact .inr elected

/-- A slave that has heard of nobody, whose master is gone. -/
def leftAlone : List SyncRound := List.replicate 20 { env := fun _ => { now := 5 }, answer := none, now := 5 }

theorem slave_elects_itself_iff_leftAlone :
    (Run.final syncRound { slave := { table := { thisurl := ascii "a" } } } leftAlone).slave.table.isMaster = true :=
  (slave_elects_itself_iff rfl leftAlone).1.mpr (by decide +kernel)

example : (Run.final syncRound { slave := { table := { thisurl := ascii "a" } } } (leftAlone.take 19)).calls =
    [.hostUpdate] := by decide +kernel

end Identt.Hrpc
