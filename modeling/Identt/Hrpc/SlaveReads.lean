import Identt.Hrpc.Failover
import Identt.Store.SameData

/-! # What a slave answers by itself

Slaves serve lookups and other reads from their own data, behind the master or not. As long as the logs are
one, each state of a slave's data is one that a master's data was in before, so a read on a slave is a late
one, never one of a mix.
-/

namespace Identt.Hrpc

open Store StoreTrans

variable {ι : Type} [DecidableEq ι] {base : DB} {s : ι → Node}

section Kept

theorem logEntry_update {i k : ι} {node : Node} {id : ℕ}
    (kept : logEntry node.table id = logEntry (s i).table id) :
    logEntry (Function.update s i node k).table id = logEntry (s k).table id := by
  by_cases here : k = i
  · subst here
    rwa [Function.update_self]
  · rw [Function.update_of_ne here]

theorem KeepsLog.logEntry {node node' : Node} (kept : KeepsLog node node') (id : ℕ) :
    logEntry node'.table id = logEntry node.table id := by
  rw [Identt.logEntry, kept.logStore, Identt.logEntry]

theorem commit_logEntry_old {env : CommitEnv} {st : SharedTable} {transaction : TransactionT} {isMaster : Bool}
    (offLog : ItemsOffLog transaction.item) {id : ℕ} (old : id ≤ st.logcounter) :
    logEntry (commit env st transaction isMaster).2 id = logEntry st id := by
  rw [commit_logEntry (.inr offLog), if_neg]
  rintro ⟨_, new⟩
  omega

/-- No step changes an entry that a node has. -/
theorem Led.logEntry_kept (led : Led base s) {label : NodesStep ι} (disciplined : Disciplined s label) (k : ι) {id : ℕ}
    (positive : 1 ≤ id) (old : id ≤ (s k).table.logcounter) :
    logEntry (nodesStep s label k).table id = logEntry (s k).table id := by
  have bounds := disciplined.withinBounds
  cases label with
  | write i env transaction =>
    by_cases here : k = i
    · subst here
      rw [nodesStep, Function.update_self, Node.write]
      split
      · exact commit_logEntry_old bounds old
      · rfl
    · rw [nodesStep, Function.update_of_ne here]
  | ask i j limit sent answered =>
    obtain ⟨lastslave, reply, _, same⟩ := ask_cases s i j limit sent answered (led.wf j).log
    have asked := (keepsLog_noted s j lastslave k).logEntry id
    rw [nodesStep, same, ← asked]
    exact logEntry_update rfl
  | next i env =>
    by_cases here : k = i
    · subst here
      rw [nodesStep, Function.update_self]
      rcases (s k).next_cases env with ⟨rest, _, same⟩ | ⟨record, rest, member, _, _, _, _, same⟩
      · rw [same]
      · rw [same]
        exact commit_logEntry_old ((led.wf k).replyOff record member).2 old
    · rw [nodesStep, Function.update_of_ne here]
  | push i data => exact logEntry_update ((keepsLog_push (s i) data).logEntry id)
  | drain i env => exact logEntry_update ((keepsLog_drain (s i) env).logEntry id)
  | hear i message => exact logEntry_update ((keepsLog_hear (s i) message).logEntry id)
  | masterUpdate i cutoff tries =>
    rw [nodesStep]
    split
    · rfl
    · exact logEntry_update ((keepsLog_masterUpdate (s i) cutoff tries).logEntry id)
  | restart i isMaster master =>
    exact logEntry_update ((restart_log (led.wf i).log bounds).2.1 id positive)

end Kept

section Run

variable {start : ι → Node} {labels : List (NodesStep ι)}

/-- A node keeps what it has, and its counter only grows. -/
theorem kept_run (led : Led base start) (disciplined : Run.Guarded nodesStep Disciplined start labels) {k n : ℕ}
    (earlier : k ≤ n) (i : ι) :
    (Run.final nodesStep start (labels.take k) i).table.logcounter ≤
        (Run.final nodesStep start (labels.take n) i).table.logcounter ∧
      ∀ id, 1 ≤ id → id ≤ (Run.final nodesStep start (labels.take k) i).table.logcounter →
        logEntry (Run.final nodesStep start (labels.take n) i).table id =
          logEntry (Run.final nodesStep start (labels.take k) i).table id := by
  induction earlier with
  | refl => exact ⟨le_rfl, fun _ _ _ => rfl⟩
  | @step n earlier ih =>
    obtain ⟨grows, kept⟩ := ih
    cases here : labels[n]? with
    | none =>
      rw [Run.final_take_of_none here]
      exact ⟨grows, kept⟩
    | some label =>
      have reached := led_run led disciplined n
      have guard := disciplined n label here
      rw [Run.final_take_succ here]
      refine ⟨grows.trans (reached.logcounter_le guard i), fun id positive old => ?_⟩
      rw [reached.logEntry_kept guard i positive (old.trans grows), kept id positive old]

/-- A cluster on its first start: no node has a transaction. -/
def Blank (start : ι → Node) : Prop := ∀ i, (start i).table.logcounter = 1 ∧ (start i).reply = []

omit [DecidableEq ι] in
theorem Blank.holds_none (blank : Blank start) (led : Led base start) (holder : ι ⊕ ι) (id : ℕ)
    (record : TransactionT) : ¬ HoldsEntry start holder id record := by
  rcases holder with i | i
  · rintro ⟨positive, has⟩
    have entry := ((led.sound i).contiguous id positive).mp (by rw [has]; rfl)
    have counter := (blank i).1
    omega
  · rintro ⟨_, member, _⟩
    rw [(blank i).2] at member
    exact List.not_mem_nil member

/-- A master gives out the identifier for a write. -/
def GivesOutId (s : ι → Node) (label : NodesStep ι) (m : ι) (id : ℕ) : Prop :=
  ∃ env transaction, label = .write m env transaction ∧ (s m).table.isMaster = true ∧ Logs env transaction ∧
    (s m).table.logcounter + 1 = id

/-- What is held after a step was held before it, or a master gave it out in the step. -/
theorem Led.given_out_step (led : Led base s) {label : NodesStep ι} (disciplined : Disciplined s label) {holder : ι ⊕ ι}
    {id : ℕ} {record : TransactionT} (holds : HoldsEntry (nodesStep s label) holder id record) :
    (∃ other, HoldsEntry s other id record) ∨ ∃ m, GivesOutId s label m id := by
  have bounds := disciplined.withinBounds
  by_cases givesOut : GivesOut s label
  · obtain ⟨i, env, transaction, rfl, isMaster, logs⟩ := givesOut
    by_cases here : holder = .inl i
    · subst here
      have entry := holds.2
      rw [nodesStep, Function.update_self, Node.logEntry_write isMaster logs bounds] at entry
      split at entry
      · next isNew => exact .inr ⟨i, env, transaction, rfl, isMaster, logs, isNew.symm⟩
      · exact .inl ⟨.inl i, holds.1, entry⟩
    · exact .inl ⟨holder, (holdsEntry_write here id record).mp holds⟩
  · exact .inl (nodesStep_held led.wf bounds givesOut holder id record holds)

/-- Whatever anybody holds was given out by a master before. -/
theorem given_out (led : Led base start) (blank : Blank start)
    (disciplined : Run.Guarded nodesStep Disciplined start labels) (n : ℕ) {holder : ι ⊕ ι} {id : ℕ}
    {record : TransactionT} (holds : HoldsEntry (Run.final nodesStep start (labels.take n)) holder id record) :
    ∃ k < n, ∃ label m, labels[k]? = some label ∧ GivesOutId (Run.final nodesStep start (labels.take k)) label m id := by
  induction n generalizing holder with
  | zero => exact (blank.holds_none led holder id record holds).elim
  | succ n ih =>
    cases here : labels[n]? with
    | none =>
      rw [Run.final_take_of_none here] at holds
      obtain ⟨k, earlier, found⟩ := ih holds
      exact ⟨k, Nat.lt_succ_of_lt earlier, found⟩
    | some label =>
      rw [Run.final_take_succ here] at holds
      rcases (led_run led disciplined n).given_out_step (disciplined n label here) holds with
        ⟨other, before⟩ | ⟨m, givesOut⟩
      · obtain ⟨k, earlier, found⟩ := ih before
        exact ⟨k, Nat.lt_succ_of_lt earlier, found⟩
      · exact ⟨n, Nat.lt_succ_self n, label, m, here, givesOut⟩

theorem counter_givesOut {k : ℕ} {label : NodesStep ι} {m : ι} {id : ℕ} (here : labels[k]? = some label)
    (givesOut : GivesOutId (Run.final nodesStep start (labels.take k)) label m id) :
    (Run.final nodesStep start (labels.take (k + 1)) m).table.logcounter = id := by
  obtain ⟨env, transaction, rfl, isMaster, logs, isNew⟩ := givesOut
  rw [Run.final_take_succ here, nodesStep, Function.update_self, Node.write, if_pos isMaster, ← isNew]
  exact commit_logcounter.trans (if_neg logs.1)

/-- Sound nodes whose logs are the same up to one counter have the same data. -/
theorem sameData_of_sameLog {st st' : SharedTable} (sound : Sound base st) (sound' : Sound base st')
    (counter : st.logcounter = st'.logcounter)
    (entries : ∀ id, 1 ≤ id → id ≤ st.logcounter → logEntry st id = logEntry st' id) :
    SameData st.maindb st'.maindb := by
  intro key offLog
  rw [sound.data key (.inr offLog), sound'.data key (.inr offLog), ← counter, logUpTo_congr entries]

/-- The data of a node is as the first start left it, or as a write of a master left it there. -/
theorem data_from_write (led : Led base start) (blank : Blank start)
    (disciplined : Run.Guarded nodesStep Disciplined start labels) (n : ℕ) (i : ι) :
    ((start i).table.logcounter = (Run.final nodesStep start (labels.take n) i).table.logcounter ∧
      SameData (Run.final nodesStep start (labels.take n) i).table.maindb (start i).table.maindb) ∨
    ∃ k < n, ∃ label m, labels[k]? = some label ∧
      GivesOutId (Run.final nodesStep start (labels.take k)) label m
        (Run.final nodesStep start (labels.take n) i).table.logcounter ∧
      SameData (Run.final nodesStep start (labels.take n) i).table.maindb
        (Run.final nodesStep start (labels.take (k + 1)) m).table.maindb := by
  have now := led_run led disciplined n
  rcases Nat.lt_or_ge (Run.final nodesStep start (labels.take n) i).table.logcounter 2 with one | two
  · have counter : (start i).table.logcounter = (Run.final nodesStep start (labels.take n) i).table.logcounter := by
      have begun := (now.sound i).counter
      rw [(blank i).1]
      omega
    refine .inl ⟨counter, sameData_of_sameLog (now.sound i) (led.sound i) counter.symm fun id positive bound => ?_⟩
    exact (kept_run led disciplined n.zero_le i).2 id positive (bound.trans counter.ge)
  · have last := ((now.sound i).contiguous _ (by omega)).mpr ⟨two, le_rfl⟩
    obtain ⟨record, has⟩ := Option.isSome_iff_exists.mp last
    have holds : HoldsEntry (Run.final nodesStep start (labels.take n)) (.inl i) _ record := ⟨by omega, has⟩
    obtain ⟨k, earlier, label, m, here, givesOut⟩ := given_out led blank disciplined n holds
    refine .inr ⟨k, earlier, label, m, here, givesOut, ?_⟩
    have past := led_run led disciplined (k + 1)
    have counter := counter_givesOut here givesOut
    refine sameData_of_sameLog (now.sound i) (past.sound m) counter.symm fun id positive bound => ?_
    -- the master has kept what it had, and today's logs agree
    have order : k + 1 ≤ n := earlier
    have keeps := (kept_run led disciplined order m).2 id positive (by omega)
    have bounded := (kept_run led disciplined order m).1
    have shorter := (now.logPrefix (i := i) (j := m) (by omega)).2 id positive
    rw [if_pos bound] at shorter
    rw [shorter, keeps]

/-- Whatever of its data the writes of a master keep, true on every node on its first start, is true on every node
in every state. -/
theorem data_keeps {P : DB → Prop} (congr : ∀ {db db'}, SameData db db' → P db' → P db) (led : Led base start)
    (blank : Blank start) (disciplined : Run.Guarded nodesStep Disciplined start labels)
    (begins : ∀ i, P (start i).table.maindb)
    (keeps : Run.Guarded nodesStep (fun s label => ∀ i env transaction, label = .write i env transaction →
      (s i).table.isMaster = true → P (s i).table.maindb → P ((s i).write env transaction).table.maindb) start labels)
    (n : ℕ) (i : ι) : P (Run.final nodesStep start (labels.take n) i).table.maindb := by
  induction n using Nat.strong_induction_on generalizing i with
  | _ n ih =>
    rcases data_from_write led blank disciplined n i with ⟨_, same⟩ | ⟨k, earlier, label, m, here, givesOut, same⟩
    · exact congr same (begins i)
    · refine congr same ?_
      obtain ⟨env, transaction, rfl, isMaster, _⟩ := givesOut
      rw [Run.final_take_succ here, nodesStep, Function.update_self]
      exact keeps k _ here m env transaction rfl isMaster (ih k earlier m)

end Run

end Identt.Hrpc
