import Mathlib.Data.List.Count
import Mathlib.Data.List.Perm.Basic
import Identt.Lib.Run
import Identt.Store.LogView

/-! # Commits that overlap

Calls of `Commit` on the master run in parallel, and each of its three writes is atomic on its own.
Identifiers are given out in one order and the data is written in another; the log is replayed in the
first, the data shows the second.
-/

namespace Identt

open Store StoreTrans

/-- The atomic steps of the calls, each naming its call. -/
inductive CommitStep where
  | getNext (call : ℕ)
  | logPut (call : ℕ)
  | dataWrite (call : ℕ)
deriving DecidableEq, Repr

namespace CommitStep

def call : CommitStep → ℕ
  | .getNext i | .logPut i | .dataWrite i => i

/-- What one call does, in its order. -/
def program (i : ℕ) : List CommitStep := [.getNext i, .logPut i, .dataWrite i]

/-- The steps of one call in a schedule. -/
def ofCall (i : ℕ) (schedule : List CommitStep) : List CommitStep :=
  schedule.filter fun step => step.call = i

/-- Every call below `n` runs to its end, in its order, and no other call runs. -/
def Interleaving (n : ℕ) (schedule : List CommitStep) : Prop :=
  ∀ i, ofCall i schedule = if i < n then program i else []

/-- The calls in the order of their log identifiers. -/
def idOrder (schedule : List CommitStep) : List ℕ :=
  schedule.filterMap fun
    | .getNext i => some i
    | _ => none

/-- The calls in the order of their data writes. -/
def writeOrder (schedule : List CommitStep) : List ℕ :=
  schedule.filterMap fun
    | .dataWrite i => some i
    | _ => none

theorem idOrder_append (first second : List CommitStep) :
    idOrder (first ++ second) = idOrder first ++ idOrder second := List.filterMap_append ..

theorem writeOrder_append (first second : List CommitStep) :
    writeOrder (first ++ second) = writeOrder first ++ writeOrder second := List.filterMap_append ..

theorem mem_idOrder {schedule : List CommitStep} {i : ℕ} : i ∈ idOrder schedule ↔ .getNext i ∈ schedule := by
  rw [idOrder, List.mem_filterMap]
  constructor
  · rintro ⟨step, member, isNext⟩
    cases step <;> cases isNext
    exact member
  · exact fun member => ⟨_, member, rfl⟩

theorem mem_writeOrder {schedule : List CommitStep} {i : ℕ} :
    i ∈ writeOrder schedule ↔ .dataWrite i ∈ schedule := by
  rw [writeOrder, List.mem_filterMap]
  constructor
  · rintro ⟨step, member, isWrite⟩
    cases step <;> cases isWrite
    exact member
  · exact fun member => ⟨_, member, rfl⟩

theorem mem_ofCall {schedule : List CommitStep} {i : ℕ} {step : CommitStep} :
    step ∈ ofCall i schedule ↔ step ∈ schedule ∧ step.call = i := by
  simp [ofCall]

/-- Every call has come some way through its program. -/
def Started (past : List CommitStep) : Prop := ∀ i, ofCall i past <+: program i

theorem Started.of_append {past rest : List CommitStep} (started : Started (past ++ rest)) : Started past := by
  intro i
  have whole := started i
  rw [ofCall, List.filter_append] at whole
  exact (List.prefix_append ..).trans whole

theorem Interleaving.started {n : ℕ} {schedule : List CommitStep} (valid : Interleaving n schedule) :
    Started schedule := by
  intro i
  rw [valid i]
  split
  · exact List.prefix_rfl
  · exact List.nil_prefix

/-- A call takes its identifier once, before anything else. -/
theorem Started.getNext {past : List CommitStep} {i : ℕ} (started : Started (past ++ [.getNext i])) :
    .getNext i ∉ past ∧ .logPut i ∉ past := by
  obtain ⟨rest, split⟩ := started i
  rw [ofCall, List.filter_append] at split
  have first : ofCall i past = [] := by
    cases earlier : ofCall i past with
    | nil => rfl
    | cons step steps =>
      rw [show List.filter (fun step => decide (step.call = i)) past = step :: steps from earlier] at split
      have later := (List.cons.inj split).2
      have member : CommitStep.getNext i ∈ [CommitStep.logPut i, CommitStep.dataWrite i] := by
        rw [← later]
        simp [call]
      simp at member
  constructor <;> intro member
  · have here := mem_ofCall.mpr ⟨member, show (CommitStep.getNext i).call = i from rfl⟩
    rw [first] at here
    contradiction
  · have here := mem_ofCall.mpr ⟨member, show (CommitStep.logPut i).call = i from rfl⟩
    rw [first] at here
    contradiction

/-- A call that writes the log has taken its identifier. -/
theorem Started.logPut {past : List CommitStep} {i : ℕ} (started : Started (past ++ [.logPut i])) :
    .getNext i ∈ past := by
  obtain ⟨rest, split⟩ := started i
  rw [ofCall, List.filter_append] at split
  cases earlier : ofCall i past with
  | nil =>
    rw [show List.filter (fun step => decide (step.call = i)) past = [] from earlier] at split
    simp [call, program] at split
  | cons step steps =>
    rw [show List.filter (fun step => decide (step.call = i)) past = step :: steps from earlier] at split
    have head := (List.cons.inj split).1
    have member : step ∈ ofCall i past := by simp [earlier]
    rw [head] at member
    exact (mem_ofCall.mp member).1

theorem Started.getNext_of_logPut {past : List CommitStep} {i : ℕ} (started : Started past)
    (member : .logPut i ∈ past) : .getNext i ∈ past := by
  obtain ⟨front, back, rfl⟩ := List.append_of_mem member
  have upTo : Started (front ++ [.logPut i]) := by
    rw [← List.singleton_append, ← List.append_assoc] at started
    exact started.of_append
  exact List.mem_append_left _ upTo.logPut

theorem Started.idOrder_nodup {past : List CommitStep} (started : Started past) : (idOrder past).Nodup := by
  induction past using List.reverseRecOn with
  | nil => exact List.nodup_nil
  | append_singleton past step ih =>
    have before := ih started.of_append
    rw [idOrder_append]
    cases step with
    | getNext i =>
      refine List.nodup_append.mpr ⟨before, List.nodup_singleton i, fun j member k isLast same => ?_⟩
      obtain rfl := List.mem_singleton.mp isLast
      exact started.getNext.1 (mem_idOrder.mp (same ▸ member))
    | logPut i => simpa [idOrder] using before
    | dataWrite i => simpa [idOrder] using before

/-- In an interleaving the calls that take an identifier are those that write their data. -/
theorem Interleaving.mem_iff {n : ℕ} {schedule : List CommitStep} (valid : Interleaving n schedule)
    {step : CommitStep} (own : step ∈ program step.call) : step ∈ schedule ↔ step.call < n := by
  have here : step ∈ schedule ↔ step ∈ ofCall step.call schedule := by simp [mem_ofCall]
  rw [here, valid step.call]
  split
  · next inside => exact iff_of_true own inside
  · next outside => exact iff_of_false List.not_mem_nil outside

end CommitStep

/-- The master and the transactions of the calls, which `Commit` numbers in place. -/
structure Commits where
  node : SharedTable
  trans : ℕ → TransactionT

/-- One atomic step of a call; `now` is when each call takes its identifier. -/
def Commits.step (now : ℕ → UInt64) (s : Commits) : CommitStep → Commits
  | .getNext i =>
    let (transaction, node) := takeLogId s.node (s.trans i)
    { node := node, trans := Function.update s.trans i { transaction with ts := now i } }
  | .logPut i => { s with node := s.node.putLog (logKey (s.trans i).id) (.log (s.trans i)) }
  | .dataWrite i => { s with node := (commitData { now := now i } s.node (s.trans i)).2 }

/-- The transactions logged behind an identifier, in the order of their identifiers. -/
def logAfter (st : SharedTable) (last count : ℕ) : List TransactionT :=
  (List.range count).filterMap fun i => logEntry st (last + 1 + i)

/-- What the steps taken so far have done. -/
structure Ran (start : Commits) (past : List CommitStep) (s : Commits) : Prop where
  build : s.node.logdb.isSome = start.node.logdb.isSome
  counter : s.node.logcounter = start.node.logcounter + (CommitStep.idOrder past).length
  item : ∀ i, (s.trans i).item = (start.trans i).item
  data : ∀ key, OffLog start.node key → s.node.maindb.get? key =
    (applyItems start.node.maindb
      ((CommitStep.writeOrder past).flatMap fun i => (start.trans i).item)).get? key
  id : ∀ i, CommitStep.getNext i ∈ past →
    (s.trans i).id = start.node.logcounter + 1 + (CommitStep.idOrder past).idxOf i
  logged : ∀ i, CommitStep.logPut i ∈ past → s.node.logStore.get? (logKey (s.trans i).id) = some (.log (s.trans i))

/-! What each step adds. -/

section Steps

variable {now : ℕ → UInt64} {start s : Commits} {past : List CommitStep} {i : ℕ}

theorem Ran.getNext (ran : Ran start past s) (started : CommitStep.Started (past ++ [.getNext i])) :
    Ran start (past ++ [.getNext i]) (Commits.step now s (.getNext i)) := by
  obtain ⟨notNext, notLogged⟩ := started.getNext
  have order : CommitStep.idOrder (past ++ [.getNext i]) = CommitStep.idOrder past ++ [i] :=
    CommitStep.idOrder_append ..
  have fresh : i ∉ CommitStep.idOrder past := fun member => notNext (CommitStep.mem_idOrder.mp member)
  constructor
  case build => exact ran.build
  case counter =>
    rw [order, List.length_append, List.length_singleton, ← Nat.add_assoc, ← ran.counter]
    rfl
  case item =>
    intro j
    rw [← ran.item j]
    by_cases same : j = i
    · subst same
      simp [Commits.step, takeLogId]
    · simp [Commits.step, Function.update_of_ne same]
  case data => simpa [CommitStep.writeOrder_append, CommitStep.writeOrder, Commits.step, takeLogId] using ran.data
  case id =>
    intro j member
    rw [order]
    by_cases same : j = i
    · subst same
      rw [List.idxOf_append_of_notMem fresh]
      simp [Commits.step, takeLogId, ran.counter]
      omega
    · have earlier : CommitStep.getNext j ∈ past := by simpa [same] using member
      rw [List.idxOf_append_of_mem (CommitStep.mem_idOrder.mpr earlier), ← ran.id j earlier]
      simp [Commits.step, Function.update_of_ne same]
  case logged =>
    intro j member
    have earlier : CommitStep.logPut j ∈ past := by simpa using member
    have other : j ≠ i := by
      rintro rfl
      exact notLogged earlier
    simpa [Commits.step, takeLogId, SharedTable.logStore, Function.update_of_ne other] using ran.logged j earlier

theorem Ran.logPut (ran : Ran start past s) (started : CommitStep.Started (past ++ [.logPut i])) :
    Ran start (past ++ [.logPut i]) (Commits.step now s (.logPut i)) := by
  have numbered := started.logPut
  have order : CommitStep.idOrder (past ++ [.logPut i]) = CommitStep.idOrder past := by
    simp [CommitStep.idOrder]
  constructor
  case build => simpa [Commits.step] using ran.build
  case counter => simpa [Commits.step, order] using ran.counter
  case item => exact ran.item
  case data =>
    intro key offLog
    have off : s.node.logdb.isSome ∨ key ≠ logKey (s.trans i).id := by
      rw [ran.build]
      refine offLog.imp_right ?_
      rintro notLog rfl
      exact notLog (hasType_logKey _)
    simpa [Commits.step, SharedTable.get?_putLog_maindb _ _ off, CommitStep.writeOrder_append,
      CommitStep.writeOrder] using ran.data key offLog
  case id =>
    intro j member
    have earlier : CommitStep.getNext j ∈ past := by simpa using member
    rw [order]
    exact ran.id j earlier
  case logged =>
    intro j member
    simp only [Commits.step, SharedTable.putLog_logStore, OrderedMap.get?_put, logKey_inj]
    split
    · next same =>
      have isNext : CommitStep.getNext j ∈ past := by
        rcases List.mem_append.mp member with earlier | last
        · exact started.of_append.getNext_of_logPut earlier
        · obtain ⟨rfl⟩ := List.mem_singleton.mp last
          exact numbered
      rw [ran.id j isNext, ran.id i numbered] at same
      have inOrder := CommitStep.mem_idOrder.mpr isNext
      have equal : j = i := by
        apply (List.idxOf_inj inOrder).mp
        omega
      rw [equal]
    · next other =>
      have differ : j ≠ i := by
        rintro rfl
        exact other rfl
      have earlier : CommitStep.logPut j ∈ past := by simpa [differ] using member
      exact ran.logged j earlier

theorem Ran.dataWrite (ran : Ran start past s)
    (separate : start.node.logdb.isSome ∨ ItemsOffLog (start.trans i).item) :
    Ran start (past ++ [.dataWrite i]) (Commits.step now s (.dataWrite i)) := by
  have order : CommitStep.idOrder (past ++ [.dataWrite i]) = CommitStep.idOrder past := by
    simp [CommitStep.idOrder]
  have writes : CommitStep.writeOrder (past ++ [.dataWrite i]) = CommitStep.writeOrder past ++ [i] :=
    CommitStep.writeOrder_append ..
  have after : (commitData { now := now i } s.node (s.trans i)).2 =
      { s.node with maindb := applyItems s.node.maindb (s.trans i).item } := by
    rw [commitData]
    split
    · next empty => rw [empty, applyItems_nil]
    · rfl
  constructor
  case build => simpa [Commits.step, after] using ran.build
  case counter => simpa [Commits.step, after, order] using ran.counter
  case item => exact ran.item
  case data =>
    intro key offLog
    rw [writes, List.flatMap_append, List.flatMap_singleton, applyItems_append]
    simp only [Commits.step, after, ran.item]
    exact applyItems_congr (ran.data key offLog) _
  case id =>
    intro j member
    have earlier : CommitStep.getNext j ∈ past := by simpa using member
    rw [order]
    exact ran.id j earlier
  case logged =>
    intro j member
    have earlier : CommitStep.logPut j ∈ past := by simpa using member
    have before := ran.logged j earlier
    simp only [Commits.step, after, SharedTable.logStore] at before ⊢
    rw [← before]
    cases logdb : s.node.logdb with
    | some logdb' => simp
    | none =>
      have shared : start.node.logdb.isSome = false := by rw [← ran.build, logdb, Option.isSome_none]
      have off := separate.resolve_left (by simp [shared])
      simp only [Option.getD_none]
      apply applyItems_of_untouched
      intro item inItems here
      rw [ran.item] at inItems
      exact off item inItems (here ▸ hasType_logKey _)

end Steps

theorem ran_of_started {now : ℕ → UInt64} {start : Commits}
    (separate : start.node.logdb.isSome ∨ ∀ i, ItemsOffLog (start.trans i).item)
    {past : List CommitStep} (started : CommitStep.Started past) :
    Ran start past (Run.final (Commits.step now) start past) := by
  induction past using List.reverseRecOn with
  | nil => exact ⟨rfl, rfl, fun _ => rfl, fun _ _ => rfl, by simp, by simp⟩
  | append_singleton past step ih =>
    have ran := ih started.of_append
    rw [Run.final_concat]
    cases step with
    | getNext i => exact ran.getNext started
    | logPut i => exact ran.logPut started
    | dataWrite i => exact ran.dataWrite (separate.imp_right fun off => off i)

/-- What the last item on a key leaves there, over the calls in an order, if any call touches it. -/
def lastEffect (trans : ℕ → TransactionT) (order : List ℕ) (key : Bytes) : Option (Option Stored) :=
  (BatchOp.last? ((order.flatMap fun i => (trans i).item).map TransItemT.batchOp) key).map BatchOp.result

theorem get?_applyItems_calls (db : DB) (trans : ℕ → TransactionT) (order : List ℕ) (key : Bytes) :
    (applyItems db (order.flatMap fun i => (trans i).item)).get? key =
      (lastEffect trans order key).getD (db.get? key) :=
  (OrderedMap.get?_write db _ key).trans (by rw [lastEffect]; congr!)

/-- Orders of the same calls touch the same keys. -/
theorem lastEffect_eq_none_iff {trans : ℕ → TransactionT} {first second : List ℕ}
    (same : ∀ i, i ∈ first ↔ i ∈ second) (key : Bytes) :
    lastEffect trans first key = none ↔ lastEffect trans second key = none := by
  simp only [lastEffect, Option.map_eq_none_iff, BatchOp.last?_eq_none_iff, List.mem_map, List.mem_flatMap,
    same]

/-- Transactions logged one after the other are listed in that order. -/
theorem logAfter_eq_map {st : SharedTable} {last : ℕ} {order : List ℕ} {trans : ℕ → TransactionT}
    (entries : ∀ j i, order[j]? = some i → logEntry st (last + 1 + j) = some (trans i)) :
    logAfter st last order.length = order.map trans := by
  induction order using List.reverseRecOn with
  | nil => rfl
  | append_singleton order i ih =>
    have earlier := ih fun j k here => entries j k (by
      rw [List.getElem?_append_left (List.getElem?_eq_some_iff.mp here).1, here])
    have here := entries order.length i (by simp)
    rw [logAfter] at earlier ⊢
    rw [List.length_append, List.length_singleton, List.range_succ, List.filterMap_append, earlier,
      List.map_append]
    simp [here]

/-- Calls that run to their ends, however they overlap, leave the data that the log replays to exactly
when every key is left the same by the last call on it in the order of the data writes and by the last
call on it in the order of the log identifiers. -/
theorem overlapping_commits_replay_iff {now : ℕ → UInt64} {start : Commits} {n : ℕ}
    {schedule : List CommitStep} (valid : CommitStep.Interleaving n schedule)
    (separate : start.node.logdb.isSome ∨ ∀ i, ItemsOffLog (start.trans i).item) :
    HasData (Run.final (Commits.step now) start schedule).node
        (replay start.node.maindb
          (logAfter (Run.final (Commits.step now) start schedule).node start.node.logcounter n)) ↔
      ∀ key, OffLog start.node key →
        lastEffect start.trans (CommitStep.writeOrder schedule) key =
          lastEffect start.trans (CommitStep.idOrder schedule) key := by
  have ran : Ran start schedule (Run.final (Commits.step now) start schedule) :=
    ran_of_started separate valid.started
  generalize Run.final (Commits.step now) start schedule = s at ran ⊢
  have inOrder (i : ℕ) : i ∈ CommitStep.idOrder schedule ↔ i < n :=
    CommitStep.mem_idOrder.trans (valid.mem_iff (List.mem_cons_self ..))
  have inWrites (i : ℕ) : i ∈ CommitStep.writeOrder schedule ↔ i < n :=
    CommitStep.mem_writeOrder.trans (valid.mem_iff (by simp [CommitStep.program, CommitStep.call]))
  have nodup := valid.started.idOrder_nodup
  have length : (CommitStep.idOrder schedule).length = n := by
    have permuted : (CommitStep.idOrder schedule).Perm (List.range n) :=
      (List.perm_ext_iff_of_nodup nodup List.nodup_range).mpr fun i => by rw [inOrder, List.mem_range]
    rw [permuted.length_eq, List.length_range]
  have listed : logAfter s.node start.node.logcounter n = (CommitStep.idOrder schedule).map s.trans := by
    rw [← length]
    apply logAfter_eq_map
    intro j i here
    obtain ⟨bound, get⟩ := List.getElem?_eq_some_iff.mp here
    have member : i ∈ CommitStep.idOrder schedule := List.mem_of_getElem? here
    have own : CommitStep.logPut i ∈ CommitStep.program i := by simp [CommitStep.program]
    have logged : CommitStep.logPut i ∈ schedule := (valid.mem_iff own).mpr ((inOrder i).mp member)
    have position : (CommitStep.idOrder schedule).idxOf i = j := by
      rw [← get]
      exact nodup.idxOf_getElem j bound
    have number := ran.id i (CommitStep.mem_idOrder.mp member)
    rw [position] at number
    rw [logEntry, ← number, ran.logged i logged]
    rfl
  have replayed : replay start.node.maindb (logAfter s.node start.node.logcounter n) =
      applyItems start.node.maindb ((CommitStep.idOrder schedule).flatMap fun i => (start.trans i).item) := by
    rw [listed, replay_eq_applyItems, List.flatMap_map]
    simp only [ran.item]
  have offLog_iff (key : Bytes) : OffLog s.node key ↔ OffLog start.node key := by
    rw [OffLog, OffLog, ran.build]
  rw [replayed, HasData]
  refine forall_congr' fun key => ?_
  rw [offLog_iff]
  refine forall_congr' fun offLog => ?_
  rw [ran.data key offLog, get?_applyItems_calls, get?_applyItems_calls]
  have touched : lastEffect start.trans (CommitStep.writeOrder schedule) key = none ↔
      lastEffect start.trans (CommitStep.idOrder schedule) key = none :=
    lastEffect_eq_none_iff (fun i => (inWrites i).trans (inOrder i).symm) key
  cases written : lastEffect start.trans (CommitStep.writeOrder schedule) key with
  | none => simp [touched.mp written]
  | some left =>
    cases numbered : lastEffect start.trans (CommitStep.idOrder schedule) key with
    | none =>
      rw [touched.mpr numbered] at written
      contradiction
    | some right => simp

/-- Two calls that put different values under one key. -/
def rivals : Commits where
  node := { logcounter := 1, isMaster := true }
  trans i := { item := [⟨ascii "x", .peer { id := i }, false⟩] }

/-- The second identifier belongs to call one, the second data write to call zero. -/
def crossed : List CommitStep :=
  [.getNext 0, .getNext 1, .logPut 0, .logPut 1, .dataWrite 1, .dataWrite 0]

theorem interleaving_crossed : CommitStep.Interleaving 2 crossed := by
  intro i
  rcases i with _ | _ | i
  · decide
  · decide
  · simp [CommitStep.ofCall, crossed, CommitStep.call]

theorem rivals_offLog : ∀ i, ItemsOffLog (rivals.trans i).item := by
  intro i item member
  obtain rfl := List.mem_singleton.mp member
  change ¬ HasType .kLogNode (ascii "x")
  decide

/-- The calls of `crossed` all succeed, and the log does not replay to the data they leave. -/
theorem crossed_diverges :
    CommitStep.Interleaving 2 crossed ∧ (∀ i, ItemsOffLog (rivals.trans i).item) ∧
      ¬ HasData (Run.final (Commits.step fun _ => 0) rivals crossed).node
        (replay rivals.node.maindb
          (logAfter (Run.final (Commits.step fun _ => 0) rivals crossed).node rivals.node.logcounter 2)) := by
  refine ⟨interleaving_crossed, rivals_offLog, fun same => ?_⟩
  have here := same (ascii "x") (.inr (by decide))
  revert here
  decide

theorem overlapping_commits_replay_iff_crossed :
    HasData (Run.final (Commits.step fun _ => 0) rivals crossed).node
        (replay rivals.node.maindb
          (logAfter (Run.final (Commits.step fun _ => 0) rivals crossed).node rivals.node.logcounter 2)) ↔
      ∀ key, OffLog rivals.node key →
        lastEffect rivals.trans (CommitStep.writeOrder crossed) key =
          lastEffect rivals.trans (CommitStep.idOrder crossed) key :=
  overlapping_commits_replay_iff interleaving_crossed (.inr rivals_offLog)

end Identt
