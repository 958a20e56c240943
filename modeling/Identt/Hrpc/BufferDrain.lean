import Identt.Hrpc.SyncServer
import Identt.Lib.Run
import Identt.Store.LogView
import Identt.Utils.SharedMap

/-! # Transactions that the master pushes (`R_BUFFTRANS`)

The master pushes what it commits to its last slave, which acknowledges and buffers it. The slave's loop
takes the buffer to commit from it without the master; but the map that it swaps with is passed by
value, so what was buffered is gone and nothing is committed.
-/

namespace Identt.Hrpc

open Store StoreTrans SharedMap

/-- A slave with its buffer, the `transactions` of its shared table. -/
structure Slave where
  table : SharedTable
  transactions : MapT ℕ TransactionT := []

/-- The `R_BUFFTRANS` endpoint. -/
def buffTrans (slave : Slave) (data : TransactionT) : Except Exn TransactionT × Slave :=
  if slave.table.isMaster then (.error (.badData "Data addition is slave only"), slave)
  else (.ok data, { slave with transactions := addOne slave.transactions data.id data })

/-- The loop over the buffered transactions, as many turns as there are of them. -/
def drainLoop (env : ℕ → CommitEnv) (tmap : MapT ℕ TransactionT) : ℕ → ℕ → SharedTable → SharedTable
  | 0, _, st => st
  | turns + 1, logc, st =>
    match tmap.lookup (logc + 1) with
    | none => st -- out of sequence
    | some transaction =>
      match commit (env (logc + 1)) st transaction false with -- as slave
      | (.ok (), st) => drainLoop env tmap turns (logc + 1) st
      | (.error _, st) => st

/-- The start of a round of `SyncFromMaster`: see whether the master has sent updates. -/
def drain (env : ℕ → CommitEnv) (slave : Slave) : Slave :=
  if 0 < slave.transactions.length then
    let tmap : MapT ℕ TransactionT := []
    { table := drainLoop env tmap tmap.length slave.table.logcounter slave.table
      transactions := swap slave.transactions tmap }
  else slave

/-- The rest of a round: commit what the master answers, as long as it continues the log. -/
def pull (env : ℕ → CommitEnv) : SharedTable → List TransactionT → SharedTable
  | st, [] => st
  | st, transaction :: rest =>
    if transaction.id ≠ st.logcounter + 1 then st -- out of sync
    else
      match commit (env transaction.id) st transaction false with -- as slave
      | (.ok (), st) => pull env st rest
      | (.error _, st) => st

inductive SlaveStep where
  | buffTrans (data : TransactionT)
  | drain (env : ℕ → CommitEnv)
  | pull (env : ℕ → CommitEnv) (answer : List TransactionT)

def Slave.step (slave : Slave) : SlaveStep → Slave
  | .buffTrans data => (Hrpc.buffTrans slave data).2
  | .drain env => Hrpc.drain env slave
  | .pull env answer => { slave with table := Hrpc.pull env slave.table answer }

/-- The label pushes a transaction with this number, and the slave acknowledges it. -/
def Acknowledges (id : ℕ) (slave : Slave) (label : SlaveStep) : Prop :=
  ∃ data, label = .buffTrans data ∧ data.id = id ∧ (buffTrans slave data).1 = .ok data

/-- What a drain should do: commit what is buffered behind the log, in the order of the numbers. -/
def CommitsInOrder (env : ℕ → CommitEnv) (before after : Slave) : Prop :=
  ∀ transactions : List TransactionT,
    (∀ n transaction, transactions[n]? = some transaction →
      before.transactions.lookup (before.table.logcounter + 1 + n) = some transaction) →
    ∃ more, after.table = (transactions ++ more).foldl
      (fun st transaction => (commit (env transaction.id) st transaction false).2) before.table

/-- Every transaction that the run acknowledged is behind the log counter or still buffered. -/
def Kept (start : Slave) (labels : List SlaveStep) (slave : Slave) : Prop :=
  ∀ id j, Run.Occurs Slave.step (Acknowledges id) start labels j → slave.table.logcounter < id →
    (slave.transactions.lookup id).isSome

/-- No transaction acknowledged in the run is lost. -/
structure NoneLost (start : Slave) (labels : List SlaveStep) : Prop where
  kept : ∀ i, Kept start (labels.take i) (Run.final Slave.step start (labels.take i))
  committed : ∀ i env, labels[i]? = some (.drain env) →
    CommitsInOrder env (Run.final Slave.step start (labels.take i)) (Run.final Slave.step start (labels.take (i + 1)))

/-- The label drains a buffer that has something to commit, now or later. -/
def DrainsPending (slave : Slave) (label : SlaveStep) : Prop :=
  ∃ env, label = .drain env ∧ ∃ id, slave.table.logcounter < id ∧ (slave.transactions.lookup id).isSome

theorem commit_logcounter_le (env : CommitEnv) (st : SharedTable) (transaction : TransactionT) (isMaster : Bool) :
    st.logcounter ≤ (commit env st transaction isMaster).2.logcounter := by
  rcases commit_cases env st transaction isMaster with ⟨_, same⟩ | ⟨_, _, same⟩ | ⟨_, _, _, same⟩ |
    ⟨_, _, _, _, lastslave, dbcache, after⟩
  · rw [same]
  · rw [same]
    exact Nat.le_succ _
  · rw [same, afterLog_logcounter]
    exact Nat.le_succ _
  · rw [after]
    exact (Nat.le_succ _).trans (afterLog_logcounter st _).ge

theorem pull_logcounter_le (env : ℕ → CommitEnv) (st : SharedTable) (answer : List TransactionT) :
    st.logcounter ≤ (pull env st answer).logcounter := by
  induction answer generalizing st with
  | nil => exact le_rfl
  | cons transaction rest ih =>
    rw [pull]
    split
    · exact le_rfl
    · have grows := commit_logcounter_le (env transaction.id) st transaction false
      split
      · next after committed =>
        rw [committed] at grows
        exact grows.trans (ih after)
      · next after failed =>
        rw [failed] at grows
        exact grows

/-- A drain leaves the node as it is and the buffer empty. -/
theorem drain_eq (env : ℕ → CommitEnv) (slave : Slave) :
    drain env slave = { slave with transactions := [] } := by
  rw [drain]
  split
  · rfl
  · next empty =>
    have none : slave.transactions = [] := List.length_eq_zero_iff.mp (Nat.eq_zero_of_not_pos empty)
    rw [← none]

/-- What is pushed to a node changes its buffer alone. -/
theorem buffTrans_table (slave : Slave) (data : TransactionT) : (buffTrans slave data).2.table = slave.table := by
  rw [buffTrans]
  split <;> rfl

section Run

variable {start : Slave}

/-- What a slave buffers it has acknowledged. -/
theorem buffered_acknowledged (started : start.transactions = []) (labels : List SlaveStep) :
    ∀ id, ((Run.final Slave.step start labels).transactions.lookup id).isSome →
      ∃ j, Run.Occurs Slave.step (Acknowledges id) start labels j := by
  refine @Run.history _ _ Slave.step (fun past slave => ∀ id, (slave.transactions.lookup id).isSome →
    ∃ j, Run.Occurs Slave.step (Acknowledges id) start past j) start ?_ (fun past label known id buffered => ?_) labels
  · intro id buffered
    rw [started] at buffered
    contradiction
  · have before (old : ((Run.final Slave.step start past).transactions.lookup id).isSome) :
        ∃ j, Run.Occurs Slave.step (Acknowledges id) start (past ++ [label]) j := by
      obtain ⟨j, acknowledged⟩ := known id old
      exact ⟨j, acknowledged.append [label]⟩
    cases label with
    | buffTrans data =>
      by_cases isMaster : (Run.final Slave.step start past).table.isMaster = true
      · rw [Slave.step, buffTrans, if_pos isMaster] at buffered
        exact before buffered
      · rw [Slave.step, buffTrans, if_neg isMaster] at buffered
        by_cases same : id = data.id
        · refine ⟨past.length, Run.occurs_last.mpr ⟨data, rfl, same.symm, ?_⟩⟩
          rw [buffTrans, if_neg isMaster]
        · rw [lookup_addOne, if_neg same] at buffered
          exact before buffered
    | drain env =>
      rw [Slave.step, drain_eq] at buffered
      contradiction
    | pull env answer => exact before buffered

theorem Kept.step {past : List SlaveStep} (kept : Kept start past (Run.final Slave.step start past))
    {label : SlaveStep} (careful : ¬ DrainsPending (Run.final Slave.step start past) label) :
    Kept start (past ++ [label]) ((Run.final Slave.step start past).step label) := by
  intro id j acknowledged above
  rcases acknowledged.cases_append with earlier | ⟨_, now⟩
  · cases label with
    | buffTrans data =>
      have counter : ((Run.final Slave.step start past).step (.buffTrans data)).table =
          (Run.final Slave.step start past).table := by
        rw [Slave.step, buffTrans]
        split <;> rfl
      rw [counter] at above
      have buffered := kept id j earlier above
      rw [Slave.step, buffTrans]
      split
      · exact buffered
      · rw [lookup_addOne]
        split
        · rfl
        · exact buffered
    | drain env =>
      rw [Slave.step, drain_eq] at above
      exact (careful ⟨env, rfl, id, above, kept id j earlier above⟩).elim
    | pull env answer =>
      exact kept id j earlier ((pull_logcounter_le env _ answer).trans_lt above)
  · obtain ⟨data, rfl, rfl, answered⟩ := now
    rw [Slave.step]
    rw [buffTrans] at answered ⊢
    split at answered
    · contradiction
    · next notMaster =>
      rw [if_neg notMaster, lookup_addOne, if_pos rfl]
      rfl

/-- In every run of a slave that starts with an empty buffer, no acknowledged transaction is lost exactly if
the slave never drains a buffer that holds a transaction beyond its log. -/
theorem noneLost_iff (started : start.transactions = []) (labels : List SlaveStep) :
    NoneLost start labels ↔ Run.Guarded Slave.step (fun slave label => ¬ DrainsPending slave label) start labels := by
  constructor
  · rintro lossless i label here ⟨env, rfl, id, above, buffered⟩
    obtain ⟨j, acknowledged⟩ := buffered_acknowledged started (labels.take i) id buffered
    have bound := (List.getElem?_eq_some_iff.mp here).1
    have next : labels.take (i + 1) = labels.take i ++ [.drain env] := by
      rw [List.take_succ_eq_append_getElem bound, (List.getElem?_eq_some_iff.mp here).2]
    have kept := lossless.kept (i + 1)
    rw [next, Run.final_concat, Slave.step, drain_eq] at kept
    have left := kept id j (acknowledged.append _) above
    contradiction
  · intro careful
    refine ⟨fun i => ?_, fun i env here transactions buffered => ?_⟩
    · induction i with
      | zero =>
        intro id j acknowledged _
        exact absurd acknowledged.lt (Nat.not_lt_zero j)
      | succ i ih =>
        cases here : labels[i]? with
        | none =>
          have done := List.getElem?_eq_none_iff.mp here
          rwa [List.take_of_length_le (by omega), ← List.take_of_length_le done]
        | some label =>
          have bound := (List.getElem?_eq_some_iff.mp here).1
          rw [List.take_succ_eq_append_getElem bound, (List.getElem?_eq_some_iff.mp here).2, Run.final_concat]
          exact ih.step (careful i label here)
    · -- nothing is buffered behind the log, and the drain does nothing
      have none : transactions = [] := by
        cases transactions with
        | nil => rfl
        | cons transaction rest =>
          have first := buffered 0 transaction rfl
          refine (careful i _ here ⟨env, rfl, _, ?_, Option.isSome_iff_exists.mpr ⟨transaction, first⟩⟩).elim
          omega
      subst none
      refine ⟨[], ?_⟩
      rw [Run.final_take_succ here, Slave.step, drain_eq]
      rfl

end Run

/-- A slave in sync with a master that has committed once. -/
def inSync : Slave where
  table := { logcounter := 1 }

/-- The master's next transaction. -/
def pushed : TransactionT where
  id := 2
  item := [⟨encodePrimaryKey .kPeer 2, .peer { id := 2, name := ascii "a" }, false⟩]

def pushAndDrain : List SlaveStep := [.buffTrans pushed, .drain fun _ => { now := 1000000 }]

theorem noneLost_iff_pushAndDrain : NoneLost inSync pushAndDrain ↔
    Run.Guarded Slave.step (fun slave label => ¬ DrainsPending slave label) inSync pushAndDrain :=
  noneLost_iff rfl pushAndDrain

/-- The transaction is acknowledged, and gone after the next round. -/
theorem pushed_lost : inSync.transactions = [] ∧ (buffTrans inSync pushed).1 = .ok pushed ∧
    ¬ NoneLost inSync pushAndDrain := by
  refine ⟨rfl, rfl, fun lossless => ?_⟩
  have acknowledged : Run.Occurs Slave.step (Acknowledges 2) inSync pushAndDrain 0 :=
    ⟨_, rfl, pushed, rfl, rfl, rfl⟩
  have left := lossless.kept 2 2 0 acknowledged (by decide)
  revert left
  decide

end Identt.Hrpc
