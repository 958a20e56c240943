import Identt.Hrpc.Network
import Identt.Store.LogRead

/-! # A slave that starts (`SyncServer`)

Before a slave serves anything, it compares its log with that of the node it was pointed to, pulls what it lacks from
there, and registers: with that node, or with the one which that node refers to. Meanwhile everything else goes on.
-/

namespace Identt.Hrpc

open Store StoreTrans Query

/-- Where a slave is in `SyncFirst`. -/
inductive SyncFirst where
  /-- Before `CompareLog`. -/
  | comparing
  /-- Before the next `R_TRANSLOG`. -/
  | pulling
  /-- In the loop over the received transactions; those that are left are the node's `reply`. -/
  | committing (data : TransListT)
  /-- Before the next `R_REGISTER`. -/
  | registering (tolcount : ℕ)
  | complete
  /-- Something was thrown, and the program exits. -/
  | failed
deriving DecidableEq, Repr

/-- `IDENTT_SYNC_FIRST_CHUNK_SIZE`. -/
def syncFirstChunkSize : ℕ := 1000

/-- What the environment decides in a step of `SyncFirst`. -/
structure SyncFirstEnv where
  sent : UInt64 := 0
  answered : UInt64 := 0
  delivery : Delivery := .answered
  commit : CommitEnv := { now := 0 }

/-- What a slave says of itself when it registers. -/
def ownState (st : SharedTable) (now : UInt64) : StateT where
  hostname := st.hostname
  master := st.master
  logcounter := st.logcounter
  isMaster := st.isMaster
  ts := now
  thisurl := st.thisurl

/-- What `SyncFirst` does with the answer to a registration. -/
def takeAnswer (st : SharedTable) (sstate : StateT) : SharedTable :=
  -- `SetHosts` called manually, as what the master sends does not get to a node that is not ready
  if sstate.isMaster then setHosts st sstate else { st with master := sstate.master }

/-- The nodes, and how far those are in `SyncFirst` that started as slaves. -/
structure Starting (ι : Type) where
  hosts : ι → Host
  syncFirst : ι → Option SyncFirst

inductive StartStep (ι : Type) where
  | network (label : NetworkStep ι)
  /-- The next step of `SyncFirst` on a node. -/
  | syncFirst (i : ι) (env : SyncFirstEnv)

section Step

variable {ι : Type} [DecidableEq ι] (codecs : Codecs) (whoIs : Bytes → Option ι)

/-- `CompareLog`, which changes nothing on the node that is asked. -/
def comparingStep (s : ι → Host) (i : ι) (env : SyncFirstEnv) : SyncFirst :=
  let sendToRemote (request : TransactionT) : Option TransactionT :=
    let ((status, trans1), _) :=
      call codecs whoIs codecs.transaction s i (s i).table.master .rReadOne request env.delivery env.answered
    if status then some trans1 else none
  match compareLog (s i).table sendToRemote with
  | .ok true => .pulling
  | _ => .failed

def pullingStep (s : ι → Host) (i : ι) (env : SyncFirstEnv) : SyncFirst × (ι → Host) :=
  let ((status, data), s) := call codecs whoIs codecs.transList s i (s i).table.master .rTransLog
    (transLogRequest (s i).table syncFirstChunkSize env.sent) env.delivery env.answered
  (if status then .committing data else .failed,
    Function.update s i { s i with reply := if status then data.trans else [] })

/-- One turn of the loop over the received transactions, where nothing catches what `Commit` throws. -/
def committingStep (s : ι → Host) (i : ι) (env : SyncFirstEnv) (data : TransListT) : SyncFirst × (ι → Host) :=
  let committed := Function.update s i { s i with toNode := (s i).toNode.next env.commit }
  match (s i).reply with
  | [] => (if data.lastid = data.currid then .registering 0 else .pulling, s)
  | transaction :: _ =>
    if transaction.id ≠ (s i).table.logcounter + 1 then (.committing data, committed) -- out of sync
    else
      match (commit env.commit (s i).table transaction false).1 with -- commit as slave
      | .ok () => (.committing data, committed)
      | .error _ => (.failed, committed)

def registeringStep (s : ι → Host) (i : ι) (env : SyncFirstEnv) (tolcount : ℕ) : SyncFirst × (ι → Host) :=
  let ((status, sstate), s) := call codecs whoIs codecs.state s i (s i).table.master .rRegister
    (ownState (s i).table env.sent) env.delivery env.answered
  if status then
    -- the pointed machine is not one hop away from the master
    (if tolcount + 1 > 2 then .failed else if sstate.isMaster then .complete else .registering (tolcount + 1),
      Function.update s i { s i with table := takeAnswer (s i).table sstate })
  else (.failed, s)

def syncFirstStep (s : ι → Host) (i : ι) (env : SyncFirstEnv) : SyncFirst → SyncFirst × (ι → Host)
  | .comparing => (comparingStep codecs whoIs s i env, s)
  | .pulling => pullingStep codecs whoIs s i env
  | .committing data => committingStep s i env data
  | .registering tolcount => registeringStep codecs whoIs s i env tolcount
  | .complete => (.complete, s)
  | .failed => (.failed, s)

/-- A node that starts as a slave begins with `SyncFirst`. -/
def NetworkStep.starts (syncFirst : ι → Option SyncFirst) : NetworkStep ι → ι → Option SyncFirst
  | .restart i isMaster _ => Function.update syncFirst i (if isMaster then none else some .comparing)
  | _ => syncFirst

def startStep (s : Starting ι) : StartStep ι → Starting ι
  | .network label =>
    { hosts := networkStep codecs whoIs s.hosts label, syncFirst := label.starts s.syncFirst }
  | .syncFirst i env =>
    match s.syncFirst i with
    | some phase =>
      let (phase, hosts) := syncFirstStep codecs whoIs s.hosts i env phase
      { hosts, syncFirst := Function.update s.syncFirst i (some phase) }
    | none => s

end Step

/-- The node that takes the step by itself; a restart and a post come from outside. -/
def NetworkStep.actor {ι : Type} : NetworkStep ι → Option ι
  | .write i _ _ _ | .pull i _ _ _ _ | .next i _ | .drain i _ | .hostUpdate i _ | .intimate i _ _ _ | .elect i _ _
  | .register i _ _ | .registered i | .ready i => some i
  | .restart _ _ _ | .post _ _ _ _ => none

/-- The node is in `SyncFirst`, or failed there. -/
def Starting.Unfinished {ι : Type} (s : Starting ι) (i : ι) : Prop := ∃ phase, s.syncFirst i = some phase ∧ phase ≠ .complete

/-- Nodes do what they do with discipline, and nothing else before they are through with `SyncFirst`; counters are
words. -/
def Orderly {ι : Type} (s : Starting ι) : StartStep ι → Prop
  | .network label => NetworkDisciplined s.hosts label ∧ ∀ i, label.actor = some i → ¬ s.Unfinished i
  | .syncFirst i env => NetworkDisciplined s.hosts (.next i env.commit) ∧ ∀ j, (s.hosts j).table.logcounter < 2 ^ 64

section Forgets

variable {ι : Type} [DecidableEq ι] {codecs : Codecs} {whoIs : Bytes → Option ι} {s : ι → Host} {i : ι}
  {env : SyncFirstEnv}

theorem forgets_takeAnswer (node : Node) (sstate : StateT) :
    Forgets node { node with table := takeAnswer node.table sstate } := by
  rw [takeAnswer]
  split
  · exact forgets_hear node (.setInfo sstate)
  · exact ⟨rfl, rfl, rfl, rfl, fun _ member => member⟩

/-- A pull of `SyncFirst` is one like any other. -/
theorem pullingStep_snd : (pullingStep codecs whoIs s i env).2 =
    networkStep codecs whoIs s (.pull i syncFirstChunkSize env.sent env.answered env.delivery) := rfl

/-- And a commit too. -/
theorem committingStep_snd (data : TransListT) : (committingStep s i env data).2 = s ∨
    (committingStep s i env data).2 = networkStep codecs whoIs s (.next i env.commit) := by
  rw [committingStep]
  split
  · exact .inl rfl
  · right
    split
    · rfl
    · split <;> rfl

theorem forgets_registeringStep (tolcount : ℕ) (k : ι) :
    Forgets (nodes s k) (nodes (registeringStep codecs whoIs s i env tolcount).2 k) := by
  rw [registeringStep]
  cases called : call codecs whoIs codecs.state s i (s i).table.master .rRegister (ownState (s i).table env.sent)
      env.delivery env.answered with
  | mk outcome after =>
    obtain ⟨status, sstate⟩ := outcome
    cases status with
    | true => exact (forgets_call called k).trans (forgets_update (forgets_takeAnswer _ sstate) k)
    | false => exact forgets_call called k

/-- In `SyncFirst` nodes do nothing or one of their own steps, and forget something. -/
theorem syncFirstStep_cases (faithful : codecs.transList.Faithful) (phase : SyncFirst) :
    (∀ k, Forgets (nodes s k) (nodes (syncFirstStep codecs whoIs s i env phase).2 k)) ∨
    ∃ own, (NetworkDisciplined s (.next i env.commit) → Disciplined (nodes s) own) ∧
      ∀ k, Forgets (nodesStep (nodes s) own k) (nodes (syncFirstStep codecs whoIs s i env phase).2 k) := by
  cases phase with
  | comparing | complete | failed => exact .inl fun k => Forgets.refl _
  | pulling =>
    rw [syncFirstStep, pullingStep_snd]
    rcases @pull_cases _ _ codecs whoIs s faithful i syncFirstChunkSize env.sent env.answered env.delivery with
      forgets | ⟨j, asks⟩
    · exact .inl forgets
    · refine .inr ⟨.ask i j syncFirstChunkSize env.sent env.answered, fun _ => trivial, fun k => ?_⟩
      rw [asks]
      exact Forgets.refl _
  | committing data =>
    rw [syncFirstStep]
    rcases @committingStep_snd _ _ codecs whoIs s i env data with same | next
    · rw [same]
      exact .inl fun k => Forgets.refl _
    · refine .inr ⟨.next i env.commit, id, fun k => ?_⟩
      rw [next, networkStep, nodes_update]
      exact Forgets.refl _
  | registering tolcount => exact .inl (forgets_registeringStep tolcount)

/-- Nodes do nothing or one of their own steps, in `SyncFirst` and elsewhere, and forget something. -/
theorem startStep_cases (faithful : codecs.transList.Faithful) {s : Starting ι} {label : StartStep ι}
    (orderly : Orderly s label) :
    (∀ k, Forgets (nodes s.hosts k) (nodes (startStep codecs whoIs s label).hosts k)) ∨
    ∃ own, Disciplined (nodes s.hosts) own ∧
      ∀ k, Forgets (nodesStep (nodes s.hosts) own k) (nodes (startStep codecs whoIs s label).hosts k) := by
  cases label with
  | network label =>
    exact networkStep_cases faithful orderly.1
  | syncFirst i env =>
    rw [startStep]
    cases s.syncFirst i with
    | none => exact .inl fun k => Forgets.refl _
    | some phase =>
      exact (syncFirstStep_cases faithful phase).imp id fun ⟨own, isDisciplined, forgets⟩ =>
        ⟨own, isDisciplined orderly.1, forgets⟩

end Forgets

section Full

variable {ι : Type}

/-- Nobody has, or is about to commit, a transaction without items. -/
def Full (s : ι → Node) : Prop := ∀ holder id record, HoldsEntry s holder id record → record.item ≠ []

theorem Full.forgets {s s' : ι → Node} (full : Full s) (forgets : ∀ i, Forgets (s i) (s' i)) : Full s' :=
  fun holder id record holds => full holder id record (holdsEntry_of_forgets forgets holds)

/-- A commit logs no transaction without items. -/
theorem Full.step [DecidableEq ι] {s : ι → Node} (full : Full s) (wf : ∀ i, NodeWF (s i)) {label : NodesStep ι}
    (disciplined : Disciplined s label) : Full (nodesStep s label) := by
  intro holder id record holds
  by_cases givesOut : GivesOut s label
  · obtain ⟨i, env, transaction, rfl, isMaster, logs⟩ := givesOut
    by_cases here : holder = .inl i
    · subst here
      obtain ⟨positive, has⟩ := holds
      rw [nodesStep, Function.update_self, Node.logEntry_write isMaster logs disciplined.1] at has
      split at has
      · cases has
        exact logs.1
      · exact full (.inl i) id record ⟨positive, has⟩
    · exact full holder id record ((holdsEntry_write here id record).mp holds)
  · obtain ⟨other, before⟩ := nodesStep_held wf disciplined.withinBounds givesOut holder id record holds
    exact full other id record before

end Full

end Identt.Hrpc
