import Identt.Hrpc.BufferDrain
import Identt.Hrpc.HostMessages
import Identt.Hrpc.Replication
import Identt.Lib.Copies
import Identt.Store.LogSteps

/-! # Any number of nodes

Each node serves writes while it is the master, asks any other one for the log behind its own, buffers what
is pushed to it, hears of the others, elects itself or another one, and stops and starts again; writes
fail. A log is only ever copied from another one. So logs agree as long as each identifier that a master
gives out is new, or given out before for the same transaction.
-/

namespace Identt.Hrpc

open Store StoreTrans

/-- A node, and what is left of the answer that it is committing. -/
structure Node extends Slave where
  reply : List TransactionT := []

inductive NodesStep (ι : Type) where
  /-- A write request, which only a master commits itself. -/
  | write (i : ι) (env : CommitEnv) (transaction : TransactionT)
  /-- A node asks another one for the log behind its own. -/
  | ask (i j : ι) (limit : ℕ) (sent answered : UInt64)
  /-- A node takes the next transaction of the answer. -/
  | next (i : ι) (env : CommitEnv)
  /-- A pushed transaction arrives. -/
  | push (i : ι) (data : TransactionT)
  | drain (i : ι) (env : ℕ → CommitEnv)
  | hear (i : ι) (message : HostMessage)
  | masterUpdate (i : ι) (cutoff : UInt64) (tries : List Bool)
  /-- A node stops and starts again, as what its options say. -/
  | restart (i : ι) (isMaster : Bool) (master : Bytes)

/-- A write request on a node. -/
def Node.write (node : Node) (env : CommitEnv) (transaction : TransactionT) : Node :=
  if node.table.isMaster then { node with table := (commit env node.table transaction true).2 } else node

def Node.next (node : Node) (env : CommitEnv) : Node :=
  let (table, reply) := syncNext env node.table node.reply
  { node with table := table, reply := reply }

/-- What a node has in memory is gone after a restart. -/
def Node.restart (node : Node) (isMaster : Bool) (master : Bytes) : Node where
  table := { Identt.restart node.table with isMaster := isMaster, master := master }

section Step

variable {ι : Type} [DecidableEq ι]

/-- The answer to a request, and what it leaves on the node that was asked. -/
def ask (s : ι → Node) (i j : ι) (limit : ℕ) (sent answered : UInt64) : ι → Node :=
  let (answer, table) := transLog (s j).table (transLogRequest (s i).table limit sent) answered
  let s := Function.update s j { s j with table := table }
  match answer with
  | .ok data => Function.update s i { s i with reply := data.trans }
  | .error _ => Function.update s i { s i with reply := [] }

def nodesStep (s : ι → Node) : NodesStep ι → ι → Node
  | .write i env transaction => Function.update s i ((s i).write env transaction)
  | .ask i j limit sent answered => ask s i j limit sent answered
  | .next i env => Function.update s i ((s i).next env)
  | .push i data => Function.update s i { s i with toSlave := (buffTrans (s i).toSlave data).2 }
  | .drain i env => Function.update s i { s i with toSlave := Hrpc.drain env (s i).toSlave }
  | .hear i message => Function.update s i { s i with table := message.deliver (s i).table }
  -- the loop that elects is a slave's
  | .masterUpdate i cutoff tries =>
    if (s i).table.isMaster then s
    else Function.update s i { s i with table := masterUpdate cutoff tries (s i).table }
  | .restart i isMaster master => Function.update s i ((s i).restart isMaster master)

end Step

/-- Who holds a transaction under an identifier: a node in its log, or in the answer it is committing. -/
def HoldsEntry {ι : Type} (s : ι → Node) : ι ⊕ ι → ℕ → TransactionT → Prop
  | .inl i, id, record => 1 ≤ id ∧ logEntry (s i).table id = some record
  | .inr i, id, record => 1 ≤ id ∧ record ∈ (s i).reply ∧ record.id = id

/-- No two nodes have, or are about to commit, different transactions with one identifier. -/
def LogsAgree {ι : Type} (s : ι → Node) : Prop := Copies.Consistent (HoldsEntry s)

/-- What is true of each node by itself in every reachable state. -/
structure NodeWF (node : Node) : Prop where
  log : LogOf node.table
  logOff : LogOffLog node.table
  replyOff : ∀ record ∈ node.reply, 1 ≤ record.id ∧ ItemsOffLog record.item

/-- If a step gives out an identifier for a transaction, nobody has another one under it. -/
def FreshWrite {ι : Type} (s : ι → Node) : NodesStep ι → Prop
  | .write i env transaction => (s i).table.isMaster = true → Logs env transaction →
      ∀ holder record, HoldsEntry s holder ((s i).table.logcounter + 1) record →
        record = numbered env (s i).table transaction true
  | _ => True

/-- What is promised of a step from outside: requests keep off the log's keys, and counters are words. -/
def WithinBounds {ι : Type} (s : ι → Node) : NodesStep ι → Prop
  | .write _ _ transaction => ItemsOffLog transaction.item
  | .restart i _ _ => (s i).table.logcounter < 2 ^ 64
  | _ => True

section Node

variable {node : Node}

/-- A write on the master adds to its log at most the transaction with its next identifier. -/
theorem NodeWF.write (wf : NodeWF node) (env : CommitEnv) {transaction : TransactionT}
    (offLog : ItemsOffLog transaction.item) : NodeWF (node.write env transaction) := by
  rw [Node.write]
  split
  · refine ⟨wf.log.commit (.inr offLog), fun id record positive has => ?_, wf.replyOff⟩
    rw [commit_logEntry (.inr offLog)] at has
    split at has
    · cases has
      rwa [numbered_item]
    · exact wf.logOff id record positive has
  · exact wf

/-- What a node commits of its answer it had there, under the identifier after its counter. -/
theorem Node.next_cases (node : Node) (env : CommitEnv) :
    (∃ rest, (∀ other ∈ rest, other ∈ node.reply) ∧ node.next env = { node with reply := rest }) ∨
    ∃ record rest, record ∈ node.reply ∧ (∀ other ∈ rest, other ∈ node.reply) ∧
      record.id = node.table.logcounter + 1 ∧ record.item ≠ [] ∧
      numbered env node.table record false = record ∧
      node.next env = { node with table := (commit env node.table record false).2, reply := rest } := by
  rcases syncNext_cases env node.table node.reply with ⟨rest, sub, same⟩ | ⟨record, rest, member, sub, next, items, same⟩
  · exact .inl ⟨rest, sub, by rw [Node.next, same]⟩
  · refine .inr ⟨record, rest, member, sub, next, items, ?_, by rw [Node.next, same]⟩
    simp [numbered, ← next]

theorem NodeWF.next (wf : NodeWF node) (env : CommitEnv) : NodeWF (node.next env) := by
  rcases node.next_cases env with ⟨rest, sub, same⟩ | ⟨record, rest, member, sub, _, _, unchanged, same⟩
  · rw [same]
    exact ⟨wf.log, wf.logOff, fun other inRest => wf.replyOff other (sub other inRest)⟩
  · have offLog := (wf.replyOff record member).2
    rw [same]
    refine ⟨wf.log.commit (.inr offLog), fun id other positive has => ?_,
      fun other inRest => wf.replyOff other (sub other inRest)⟩
    rw [commit_logEntry (.inr offLog), unchanged] at has
    split at has
    · cases has
      exact offLog
    · exact wf.logOff id other positive has

theorem NodeWF.restart (wf : NodeWF node) (word : node.table.logcounter < 2 ^ 64) (isMaster : Bool)
    (master : Bytes) : NodeWF (node.restart isMaster master) := by
  obtain ⟨log, entries, _⟩ := restart_log wf.log word
  refine ⟨log, fun id record positive has => ?_, fun _ member => (List.not_mem_nil member).elim⟩
  exact wf.logOff id record positive ((entries id positive).symm.trans has)

/-- Pushes, drains, reports and elections leave stores, counter and answer alone. -/
structure KeepsLog (node node' : Node) : Prop where
  maindb : node'.table.maindb = node.table.maindb
  logdb : node'.table.logdb = node.table.logdb
  logcounter : node'.table.logcounter = node.table.logcounter
  reply : node'.reply = node.reply

theorem KeepsLog.logStore {node' : Node} (kept : KeepsLog node node') :
    node'.table.logStore = node.table.logStore := by
  rw [SharedTable.logStore, kept.logdb, kept.maindb, SharedTable.logStore]

theorem KeepsLog.wf {node' : Node} (kept : KeepsLog node node') (wf : NodeWF node) : NodeWF node' := by
  refine ⟨fun key value ofLog has => ?_, fun id record positive has => ?_, ?_⟩
  · rw [kept.logcounter]
    rw [kept.logStore] at has
    exact wf.log key value ofLog has
  · rw [logEntry, kept.logStore] at has
    exact wf.logOff id record positive has
  · rw [kept.reply]
    exact wf.replyOff

theorem keepsLog_push (node : Node) (data : TransactionT) :
    KeepsLog node { node with toSlave := (buffTrans node.toSlave data).2 } := by
  rw [buffTrans]
  split <;> exact ⟨rfl, rfl, rfl, rfl⟩

theorem keepsLog_drain (node : Node) (env : ℕ → CommitEnv) :
    KeepsLog node { node with toSlave := Hrpc.drain env node.toSlave } := by
  rw [drain_eq]
  exact ⟨rfl, rfl, rfl, rfl⟩

theorem keepsLog_hear (node : Node) (message : HostMessage) :
    KeepsLog node { node with table := message.deliver node.table } := by
  cases message with
  | setInfo data =>
    rw [HostMessage.deliver, setHosts]
    split <;> exact ⟨rfl, rfl, rfl, rfl⟩
  | register data | addHost data =>
    rw [HostMessage.deliver]
    split <;> exact ⟨rfl, rfl, rfl, rfl⟩

theorem keepsLog_masterUpdate (node : Node) (cutoff : UInt64) (tries : List Bool) :
    KeepsLog node { node with table := masterUpdate cutoff tries node.table } := by
  simp only [masterUpdate]
  split_ifs <;> exact ⟨rfl, rfl, rfl, rfl⟩

end Node

section Held

variable {ι : Type} [DecidableEq ι] {s : ι → Node}

/-- Only what one node holds can be new after a step of that node. -/
theorem held_update {i : ι} {node : Node} {holder : ι ⊕ ι} {id : ℕ} {record : TransactionT}
    (holds : HoldsEntry (Function.update s i node) holder id record)
    (log : ∀ id record, 1 ≤ id → logEntry node.table id = some record → ∃ other, HoldsEntry s other id record)
    (reply : ∀ record ∈ node.reply, 1 ≤ record.id → ∃ other, HoldsEntry s other record.id record) :
    ∃ other, HoldsEntry s other id record := by
  rcases holder with j | j <;> by_cases here : j = i
  · subst here
    rw [HoldsEntry, Function.update_self] at holds
    exact log id record holds.1 holds.2
  · rw [HoldsEntry, Function.update_of_ne here] at holds
    exact ⟨.inl j, holds⟩
  · subst here
    rw [HoldsEntry, Function.update_self] at holds
    obtain ⟨positive, member, rfl⟩ := holds
    exact reply record member positive
  · rw [HoldsEntry, Function.update_of_ne here] at holds
    exact ⟨.inr j, holds⟩

theorem KeepsLog.held {i : ι} {node : Node} (kept : KeepsLog (s i) node) {holder : ι ⊕ ι} {id : ℕ}
    {record : TransactionT} (holds : HoldsEntry (Function.update s i node) holder id record) :
    ∃ other, HoldsEntry s other id record := by
  apply held_update holds
  · intro id record positive has
    rw [logEntry, kept.logStore] at has
    exact ⟨.inl i, positive, has⟩
  · intro record member positive
    rw [kept.reply] at member
    exact ⟨.inr i, positive, member, rfl⟩

theorem held_next {i : ι} (wf : NodeWF (s i)) {env : CommitEnv} {holder : ι ⊕ ι} {id : ℕ}
    {record : TransactionT} (holds : HoldsEntry (Function.update s i ((s i).next env)) holder id record) :
    ∃ other, HoldsEntry s other id record := by
  rcases (s i).next_cases env with ⟨rest, sub, same⟩ | ⟨next, rest, member, sub, isNext, _, unchanged, same⟩
  · rw [same] at holds
    apply held_update holds
    · exact fun id record positive has => ⟨.inl i, positive, has⟩
    · exact fun record inRest positive => ⟨.inr i, positive, sub record inRest, rfl⟩
  · rw [same] at holds
    apply held_update holds
    · intro id record positive has
      have offLog := (wf.replyOff next member).2
      rw [commit_logEntry (.inr offLog), unchanged] at has
      split at has
      · next isNew =>
        cases has
        exact ⟨.inr i, positive, member, by rw [isNext, isNew.2]⟩
      · exact ⟨.inl i, positive, has⟩
    · exact fun record inRest positive => ⟨.inr i, positive, sub record inRest, rfl⟩

theorem held_restart {i : ι} (wf : NodeWF (s i)) (word : (s i).table.logcounter < 2 ^ 64) {isMaster : Bool}
    {master : Bytes} {holder : ι ⊕ ι} {id : ℕ} {record : TransactionT}
    (holds : HoldsEntry (Function.update s i ((s i).restart isMaster master)) holder id record) :
    ∃ other, HoldsEntry s other id record := by
  apply held_update holds
  · exact fun id record positive has => ⟨.inl i, positive, ((restart_log wf.log word).2.1 id positive).symm.trans has⟩
  · exact fun _ member => (List.not_mem_nil member).elim

/-- The nodes after one of them noted its last slave. -/
def noted (s : ι → Node) (j : ι) (lastslave : Bytes) : ι → Node :=
  Function.update s j { s j with table := { (s j).table with lastslave := lastslave } }

theorem keepsLog_noted (s : ι → Node) (j : ι) (lastslave : Bytes) (k : ι) : KeepsLog (s k) (noted s j lastslave k) := by
  rw [noted]
  by_cases here : k = j
  · subst here
    rw [Function.update_self]
    exact ⟨rfl, rfl, rfl, rfl⟩
  · rw [Function.update_of_ne here]
    exact ⟨rfl, rfl, rfl, rfl⟩

theorem noted_isMaster (s : ι → Node) (j : ι) (lastslave : Bytes) (k : ι) :
    (noted s j lastslave k).table.isMaster = (s k).table.isMaster := by
  rw [noted]
  by_cases here : k = j
  · subst here
    rw [Function.update_self]
  · rw [Function.update_of_ne here]

/-- What the answer to a request brings is in the log of the node that was asked. -/
theorem ask_cases (s : ι → Node) (i j : ι) (limit : ℕ) (sent answered : UInt64) (log : LogOf (s j).table) :
    ∃ lastslave reply, (∀ record ∈ reply, 1 ≤ record.id ∧ logEntry (s j).table record.id = some record) ∧
      ask s i j limit sent answered =
        Function.update (noted s j lastslave) i { noted s j lastslave i with reply := reply } := by
  obtain ⟨lastslave, same⟩ := transLog_log (s j).table (transLogRequest (s i).table limit sent) answered
  cases result : transLog (s j).table (transLogRequest (s i).table limit sent) answered with
  | mk answer table =>
    rw [result] at same
    cases same
    cases answer with
    | error e =>
      refine ⟨lastslave, [], fun _ member => (List.not_mem_nil member).elim, ?_⟩
      rw [ask, result]
      rfl
    | ok data =>
      refine ⟨lastslave, data.trans, fun record => transLog_mem log rfl (congrArg Prod.fst result), ?_⟩
      rw [ask, result]
      rfl

theorem held_ask {i j : ι} {limit : ℕ} {sent answered : UInt64} (log : LogOf (s j).table) {holder : ι ⊕ ι}
    {id : ℕ} {record : TransactionT} (holds : HoldsEntry (ask s i j limit sent answered) holder id record) :
    ∃ other, HoldsEntry s other id record := by
  obtain ⟨lastslave, reply, entries, same⟩ := ask_cases s i j limit sent answered log
  have entry (k : ι) (id : ℕ) : logEntry (noted s j lastslave k).table id = logEntry (s k).table id := by
    rw [logEntry, (keepsLog_noted s j lastslave k).logStore, logEntry]
  rw [same] at holds
  rcases holder with k | k
  · by_cases here : k = i
    · subst here
      rw [HoldsEntry, Function.update_self] at holds
      exact ⟨.inl k, holds.1, (entry k id).symm.trans holds.2⟩
    · rw [HoldsEntry, Function.update_of_ne here, entry] at holds
      exact ⟨.inl k, holds⟩
  · by_cases here : k = i
    · subst here
      rw [HoldsEntry, Function.update_self] at holds
      obtain ⟨positive, member, rfl⟩ := holds
      exact ⟨.inl j, positive, (entries record member).2⟩
    · rw [HoldsEntry, Function.update_of_ne here, (keepsLog_noted s j lastslave k).reply] at holds
      exact ⟨.inr k, holds⟩

end Held

section Run

variable {ι : Type} [DecidableEq ι] {s : ι → Node}

theorem nodeWF_update {i : ι} {node : Node} (wf : ∀ i, NodeWF (s i)) (changed : NodeWF node) (k : ι) :
    NodeWF (Function.update s i node k) := by
  by_cases here : k = i
  · subst here
    rwa [Function.update_self]
  · rw [Function.update_of_ne here]
    exact wf k

theorem nodesStep_wf (wf : ∀ i, NodeWF (s i)) {label : NodesStep ι} (bounds : WithinBounds s label) :
    ∀ i, NodeWF (nodesStep s label i) := by
  cases label with
  | write i env transaction => exact nodeWF_update wf ((wf i).write env bounds)
  | ask i j limit sent answered =>
    obtain ⟨lastslave, reply, entries, same⟩ := ask_cases s i j limit sent answered (wf j).log
    have asked (k : ι) : NodeWF (noted s j lastslave k) := (keepsLog_noted s j lastslave k).wf (wf k)
    rw [nodesStep, same]
    refine nodeWF_update asked ⟨(asked i).log, (asked i).logOff, fun record member => ?_⟩
    obtain ⟨positive, has⟩ := entries record member
    exact ⟨positive, (wf j).logOff _ record positive has⟩
  | next i env => exact nodeWF_update wf ((wf i).next env)
  | push i data => exact nodeWF_update wf ((keepsLog_push (s i) data).wf (wf i))
  | drain i env => exact nodeWF_update wf ((keepsLog_drain (s i) env).wf (wf i))
  | hear i message => exact nodeWF_update wf ((keepsLog_hear (s i) message).wf (wf i))
  | masterUpdate i cutoff tries =>
    rw [nodesStep]
    split
    · exact wf
    · exact nodeWF_update wf ((keepsLog_masterUpdate (s i) cutoff tries).wf (wf i))
  | restart i isMaster master => exact nodeWF_update wf ((wf i).restart bounds isMaster master)

/-- The step gives out an identifier. -/
def GivesOut (s : ι → Node) (label : NodesStep ι) : Prop :=
  ∃ i env transaction, label = .write i env transaction ∧ (s i).table.isMaster = true ∧ Logs env transaction

/-- Every other step only copies and forgets. -/
theorem nodesStep_held (wf : ∀ i, NodeWF (s i)) {label : NodesStep ι} (bounds : WithinBounds s label)
    (copies : ¬ GivesOut s label) (holder : ι ⊕ ι) (id : ℕ) (record : TransactionT)
    (holds : HoldsEntry (nodesStep s label) holder id record) : ∃ other, HoldsEntry s other id record := by
  cases label with
  | write i env transaction =>
    apply held_update holds
    · intro id record positive has
      rw [Node.write] at has
      split at has
      · next isMaster =>
        change logEntry (commit env (s i).table transaction true).2 id = some record at has
        rw [commit_logEntry (.inr bounds)] at has
        rw [if_neg fun both => copies ⟨i, env, transaction, rfl, isMaster, both.1⟩] at has
        exact ⟨.inl i, positive, has⟩
      · exact ⟨.inl i, positive, has⟩
    · intro record member positive
      rw [Node.write] at member
      split at member <;> exact ⟨.inr i, positive, member, rfl⟩
  | ask i j limit sent answered => exact held_ask (wf j).log holds
  | next i env => exact held_next (wf i) holds
  | push i data => exact (keepsLog_push (s i) data).held holds
  | drain i env => exact (keepsLog_drain (s i) env).held holds
  | hear i message => exact (keepsLog_hear (s i) message).held holds
  | masterUpdate i cutoff tries =>
    rw [nodesStep] at holds
    split at holds
    · exact ⟨holder, holds⟩
    · exact (keepsLog_masterUpdate (s i) cutoff tries).held holds
  | restart i isMaster master => exact held_restart (wf i) bounds holds

section Write

variable {i : ι} {env : CommitEnv} {transaction : TransactionT}

theorem Node.logEntry_write {node : Node} (isMaster : node.table.isMaster = true) (logs : Logs env transaction)
    (offLog : ItemsOffLog transaction.item) (id : ℕ) : logEntry (node.write env transaction).table id =
      if id = node.table.logcounter + 1 then some (numbered env node.table transaction true)
      else logEntry node.table id := by
  rw [Node.write, if_pos isMaster]
  change logEntry (commit env node.table transaction true).2 id = _
  rw [commit_logEntry (.inr offLog)]
  simp [logs]

/-- A write leaves what the answers and the other nodes hold. -/
theorem holdsEntry_write {holder : ι ⊕ ι} (elsewhere : holder ≠ .inl i) (id : ℕ) (record : TransactionT) :
    HoldsEntry (nodesStep s (.write i env transaction)) holder id record ↔ HoldsEntry s holder id record := by
  have reply : ((s i).write env transaction).reply = (s i).reply := by
    rw [Node.write]
    split <;> rfl
  rcases holder with j | j
  · have apart : j ≠ i := fun same => elsewhere (congrArg _ same)
    rw [nodesStep, HoldsEntry, Function.update_of_ne apart, HoldsEntry]
  · rw [nodesStep, HoldsEntry, HoldsEntry]
    by_cases here : j = i
    · subst here
      rw [Function.update_self, reply]
    · rw [Function.update_of_ne here]

/-- A master that gives out an identifier leaves the logs in agreement exactly if nobody has another transaction
under it. -/
theorem LogsAgree.write_iff (agree : LogsAgree s) (wf : NodeWF (s i)) (isMaster : (s i).table.isMaster = true)
    (logs : Logs env transaction) (offLog : ItemsOffLog transaction.item) :
    LogsAgree (nodesStep s (.write i env transaction)) ↔
      ∀ holder record, HoldsEntry s holder ((s i).table.logcounter + 1) record →
        record = numbered env (s i).table transaction true := by
  have entry := Node.logEntry_write isMaster logs offLog
  have new : HoldsEntry (nodesStep s (.write i env transaction)) (.inl i) ((s i).table.logcounter + 1)
      (numbered env (s i).table transaction true) := by
    refine ⟨Nat.le_add_left .., ?_⟩
    rw [nodesStep, Function.update_self, entry, if_pos rfl]
  apply Copies.Consistent.add_iff agree new
  · intro holder record before
    have elsewhere : holder ≠ .inl i := by
      rintro rfl
      have bound := (wf.log.entry before.1 before.2).2
      omega
    exact ⟨holder, (holdsEntry_write elsewhere _ _).mpr before⟩
  · intro holder id record after
    by_cases here : holder = .inl i
    · subst here
      obtain ⟨positive, has⟩ := after
      rw [nodesStep, Function.update_self, entry] at has
      split at has
      · next isNew =>
        cases has
        exact .inl ⟨isNew, rfl⟩
      · exact .inr ⟨.inl i, positive, has⟩
    · exact .inr ⟨holder, (holdsEntry_write here _ _).mp after⟩

end Write

/-- Nodes that agree do so after a step exactly if it gives out no identifier that somebody has for another
transaction. -/
theorem LogsAgree.step_iff (agree : LogsAgree s) (wf : ∀ i, NodeWF (s i)) {label : NodesStep ι}
    (bounds : WithinBounds s label) : LogsAgree (nodesStep s label) ↔ FreshWrite s label := by
  by_cases givesOut : GivesOut s label
  · obtain ⟨i, env, transaction, rfl, isMaster, logs⟩ := givesOut
    rw [agree.write_iff (wf i) isMaster logs bounds]
    exact ⟨fun fresh _ _ => fresh, fun fresh => fresh isMaster logs⟩
  · have copied : LogsAgree (nodesStep s label) :=
      Copies.Consistent.of_held agree (nodesStep_held wf bounds givesOut)
    refine iff_of_true copied ?_
    cases label with
    | write i env transaction => exact fun isMaster logs => (givesOut ⟨i, env, transaction, rfl, isMaster, logs⟩).elim
    | _ => trivial

/-- However writes, requests, commits, pushes, reports, elections, failures and restarts of any number of nodes
interleave, the logs agree in every state exactly if no master gives out an identifier that a node has, or is about
to commit, for another transaction. -/
theorem logs_agree_iff (agree : LogsAgree s) (wf : ∀ i, NodeWF (s i)) {labels : List (NodesStep ι)}
    (bounds : Run.Guarded nodesStep WithinBounds s labels) :
    (∀ n, LogsAgree (Run.final nodesStep s (labels.take n))) ↔ Run.Guarded nodesStep FreshWrite s labels := by
  refine @Run.weak_iff_guarded_of _ _ nodesStep LogsAgree (fun s => (∀ i, NodeWF (s i)) ∧ LogsAgree s) WithinBounds
    FreshWrite (fun _ strong => strong.2) ?_ ?_ s ⟨wf, agree⟩ labels bounds
  · rintro s label ⟨wf, agree⟩ bounds
    exact agree.step_iff wf bounds
  · rintro s label ⟨wf, agree⟩ bounds fresh
    exact ⟨nodesStep_wf wf bounds, (agree.step_iff wf bounds).mpr fresh⟩

end Run

/-- Two nodes on empty stores that both are masters. -/
def twoMasters (_i : Bool) : Node where
  table := { logcounter := 1, isMaster := true }

/-- Each of them commits a write of its own. -/
def splitWrites : List (NodesStep Bool) :=
  [.write true { now := 5 } onePut, .write false { now := 6 } onePut]

theorem nodeWF_twoMasters (i : Bool) : NodeWF (twoMasters i) :=
  ⟨fun _ _ _ has => (Option.some_ne_none _ has.symm).elim, fun _ _ _ has => (Option.some_ne_none _ has.symm).elim,
    fun _ member => (List.not_mem_nil member).elim⟩

/-- Both give out the identifier two, so their logs disagree. -/
theorem logs_agree_iff_splitWrites : ¬ ∀ n, LogsAgree (Run.final nodesStep twoMasters (splitWrites.take n)) := by
  have agree : LogsAgree twoMasters := by
    rintro (i | i) _ _ _ _ ⟨_, holds⟩
    · exact (Option.some_ne_none _ holds.symm).elim
    · exact (List.not_mem_nil holds.1).elim
  have offLog : ItemsOffLog onePut.item := by
    intro item member
    obtain rfl := List.mem_singleton.mp member
    decide
  have bounds : Run.Guarded nodesStep WithinBounds twoMasters splitWrites :=
    Run.guarded_cons.mpr ⟨offLog, Run.guarded_cons.mpr ⟨offLog, fun i label here => by simp at here⟩⟩
  rw [logs_agree_iff agree nodeWF_twoMasters bounds]
  intro fresh
  have second := fresh 1 (.write false { now := 6 } onePut) rfl rfl (by decide) (.inl true)
    { onePut with id := 2, ts := 5 } ⟨by decide, by decide +kernel⟩
  revert second
  decide

end Identt.Hrpc
