import Identt.Hrpc.Election
import Identt.Hrpc.LogAgreement

/-! # Changing the master

A slave that becomes the master knows its log from then on, and nobody else's. What it may not do is elect
itself while another one is the master, or without having heard how far the others are. Then all logs stay
beginnings of one log, and the master's is all of it.
-/

namespace Identt.Hrpc

open Store StoreTrans

variable {ι : Type}

/-- A slave has heard, since its cutoff, from each of the others a log counter that nothing which that one has, or is
about to commit, is beyond. -/
structure KnowsAll (s : ι → Node) (i : ι) (cutoff : UInt64) : Prop where
  nodup : ((s i).table.remotes.map Prod.fst).Nodup
  own : ∀ remote ∈ (s i).table.remotes, remote.1 = (s i).table.thisurl → remote.2.1 ≤ (s i).table.logcounter
  hears : ∀ j, j ≠ i → ∃ remote ∈ (s i).table.remotes, cutoff ≤ remote.2.2 ∧
    (s j).table.logcounter ≤ remote.2.1 ∧ ∀ record ∈ (s j).reply, record.id ≤ remote.2.1
  done : ∀ record ∈ (s i).reply, record.id ≤ (s i).table.logcounter

/-- The step makes a slave the master. -/
def Promotes (s : ι → Node) (i : ι) (label : NodesStep ι) : Prop :=
  ∃ cutoff tries, label = .masterUpdate i cutoff tries ∧ (s i).table.isMaster = false ∧
    elect cutoff (s i).table = (s i).table.thisurl

/-- Writes succeed, a restart is no promotion and finds its data complete, and who elects itself knows of all
others while there is no master. -/
def Disciplined (s : ι → Node) : NodesStep ι → Prop
  | .write i env transaction => ItemsOffLog transaction.item ∧ (s i).table.logcounter + 1 < 2 ^ 64 ∧
      Unharmed (s i).table (.call env transaction true)
  | .next i env => (s i).table.logcounter + 1 < 2 ^ 64 ∧
      ∀ record ∈ (s i).reply, Unharmed (s i).table (.call env record false)
  | .masterUpdate i cutoff _ => (s i).table.isMaster = false → elect cutoff (s i).table = (s i).table.thisurl →
      (∀ j, (s j).table.isMaster = false) ∧ KnowsAll s i cutoff
  | .restart i isMaster _ => Fenced (s i).table ∧ (s i).table.logcounter < 2 ^ 64 ∧
      (isMaster = true → (s i).table.isMaster = true)
  | _ => True

/-- Sound nodes that agree, of which at most one is the master; nobody has anything beyond the master's log. -/
structure Led (base : DB) (s : ι → Node) : Prop where
  wf : ∀ i, NodeWF (s i)
  sound : ∀ i, Sound base (s i).table
  agree : LogsAgree s
  one : ∀ i j, (s i).table.isMaster = true → (s j).table.isMaster = true → i = j
  ahead : ∀ m, (s m).table.isMaster = true → ∀ holder id record, HoldsEntry s holder id record →
    id ≤ (s m).table.logcounter

theorem Disciplined.withinBounds {s : ι → Node} {label : NodesStep ι} (disciplined : Disciplined s label) :
    WithinBounds s label := by
  cases label with
  | write => exact disciplined.1
  | restart => exact disciplined.2.1
  | _ => trivial

/-- What nobody is beyond by their own log, a slave that elects itself knowing of all others is not behind. -/
theorem KnowsAll.ahead {s : ι → Node} {i : ι} {cutoff : UInt64} (knows : KnowsAll s i cutoff)
    (wf : ∀ i, NodeWF (s i)) (elects : elect cutoff (s i).table = (s i).table.thisurl) {holder : ι ⊕ ι} {id : ℕ}
    {record : TransactionT} (holds : HoldsEntry s holder id record) : id ≤ (s i).table.logcounter := by
  have first := (elect_self_iff knows.nodup knows.own).mp elects
  have notBehind (remote : Bytes × ℕ × UInt64) (member : remote ∈ (s i).table.remotes) (fresh : cutoff ≤ remote.2.2) :
      remote.2.1 ≤ (s i).table.logcounter := by
    by_contra behind
    exact first ⟨remote, member, fresh, rank_lt_iff.mpr (.inl (by simpa using behind))⟩
  rcases holder with j | j
  · have bound := ((wf j).log.entry holds.1 holds.2).2
    by_cases here : j = i
    · subst here
      exact bound
    · obtain ⟨remote, member, fresh, logcounter, _⟩ := knows.hears j here
      exact (bound.trans logcounter).trans (notBehind remote member fresh)
  · obtain ⟨_, member, rfl⟩ := holds
    by_cases here : j = i
    · subst here
      exact knows.done record member
    · obtain ⟨remote, inRemotes, fresh, _, reply⟩ := knows.hears j here
      exact (reply record member).trans (notBehind remote inRemotes fresh)

/-- A restart of a sound node keeps its counter. -/
theorem restart_logcounter {base : DB} {st : SharedTable} (sound : Sound base st) (word : st.logcounter < 2 ^ 64) :
    (restart st).logcounter = st.logcounter := by
  have stopped : Sound base { st with lastslave := [], remotes := [], dbcache := .empty } :=
    ⟨sound.logOf, sound.counter, sound.contiguous, sound.data, sound.separate⟩
  rw [Identt.restart]
  split
  · next st' init => exact stopped.restart_logcounter word init
  · rfl

section Led

variable {base : DB} {s : ι → Node}

/-- The master gives out identifiers that nobody has. -/
theorem Led.fresh (led : Led base s) (label : NodesStep ι) : FreshWrite s label := by
  cases label with
  | write i env transaction =>
    intro isMaster _ holder record holds
    have bound := led.ahead i isMaster holder _ record holds
    omega
  | _ => trivial

/-- No counter is beyond the master's. -/
theorem Led.logcounter_le_master (led : Led base s) {m : ι} (isMaster : (s m).table.isMaster = true) (i : ι) :
    (s i).table.logcounter ≤ (s m).table.logcounter := by
  have begun := (led.sound m).counter
  rcases Nat.lt_or_ge (s i).table.logcounter 2 with blank | two
  · omega
  · have last := ((led.sound i).contiguous (s i).table.logcounter (by omega)).mpr ⟨two, le_rfl⟩
    obtain ⟨record, has⟩ := Option.isSome_iff_exists.mp last
    exact led.ahead m isMaster (.inl i) _ record ⟨by omega, has⟩

/-- Of two nodes that agree, the one with the smaller counter has a beginning of the other one's log. -/
theorem Led.logPrefix (led : Led base s) {i j : ι} (shorter : (s i).table.logcounter ≤ (s j).table.logcounter) :
    LogPrefix (s i).table (s j).table := by
  have agree (id : ℕ) (a b : TransactionT) (positive : 1 ≤ id) (hasA : logEntry (s i).table id = some a)
      (hasB : logEntry (s j).table id = some b) : a = b :=
    led.agree (.inl i) (.inl j) id a b ⟨positive, hasA⟩ ⟨positive, hasB⟩
  exact ⟨shorter, Copies.Filled.eq_of_agree (led.sound i).contiguous (led.sound j).contiguous shorter agree⟩

end Led

section Step

variable [DecidableEq ι] {base : DB} {s : ι → Node}

theorem isMaster_update {i k : ι} {node : Node} (kept : node.table.isMaster = true → (s i).table.isMaster = true)
    (isMaster : (Function.update s i node k).table.isMaster = true) : (s k).table.isMaster = true := by
  by_cases here : k = i
  · subst here
    rw [Function.update_self] at isMaster
    exact kept isMaster
  · rwa [Function.update_of_ne here] at isMaster

/-- Nobody becomes the master but by electing itself. -/
theorem role_of_step {label : NodesStep ι} (wf : ∀ i, NodeWF (s i)) (disciplined : Disciplined s label) {k : ι}
    (isMaster : (nodesStep s label k).table.isMaster = true) :
    (s k).table.isMaster = true ∨ Promotes s k label := by
  cases label with
  | write i env transaction =>
    refine .inl (isMaster_update (fun after => ?_) isMaster)
    rw [Node.write] at after
    split at after
    · next was => exact was
    · exact after
  | ask i j limit sent answered =>
    obtain ⟨lastslave, reply, _, same⟩ := ask_cases s i j limit sent answered (wf j).log
    rw [nodesStep, same] at isMaster
    have before : (noted s j lastslave k).table.isMaster = true := by
      refine isMaster_update (fun after => ?_) isMaster
      exact after
    exact .inl ((noted_isMaster s j lastslave k).symm.trans before)
  | next i env =>
    refine .inl (isMaster_update (fun after => ?_) isMaster)
    rcases (s i).next_cases env with ⟨rest, _, same⟩ | ⟨record, rest, _, _, _, _, _, same⟩
    · rwa [same] at after
    · rw [same] at after
      exact commit_isMaster.symm.trans after
  | push i data =>
    refine .inl (isMaster_update (fun after => ?_) isMaster)
    rwa [buffTrans_table] at after
  | drain i env =>
    refine .inl (isMaster_update (fun after => ?_) isMaster)
    rwa [drain_eq] at after
  | hear i message =>
    refine .inl (isMaster_update (fun after => ?_) isMaster)
    rwa [deliver_isMaster] at after
  | masterUpdate i cutoff tries =>
    rw [nodesStep] at isMaster
    split at isMaster
    · exact .inl isMaster
    · next slave =>
      by_cases here : k = i
      · subst here
        rw [Function.update_self] at isMaster
        exact .inr ⟨cutoff, tries, rfl, by simpa using slave,
          (masterUpdate_isMaster cutoff tries (by simpa using slave)).mp isMaster⟩
      · rw [Function.update_of_ne here] at isMaster
        exact .inl isMaster
  | restart i isMaster' master => exact .inl (isMaster_update disciplined.2.2 isMaster)

theorem logcounter_le_update {i k : ι} {node : Node} (grows : (s i).table.logcounter ≤ node.table.logcounter) :
    (s k).table.logcounter ≤ (Function.update s i node k).table.logcounter := by
  by_cases here : k = i
  · subst here
    rwa [Function.update_self]
  · rw [Function.update_of_ne here]

/-- No step takes a counter back. -/
theorem Led.logcounter_le (led : Led base s) {label : NodesStep ι} (disciplined : Disciplined s label) (k : ι) :
    (s k).table.logcounter ≤ (nodesStep s label k).table.logcounter := by
  cases label with
  | write i env transaction =>
    apply logcounter_le_update
    rw [Node.write]
    split
    · exact commit_logcounter_le env (s i).table transaction true
    · exact le_rfl
  | ask i j limit sent answered =>
    obtain ⟨lastslave, reply, _, same⟩ := ask_cases s i j limit sent answered (led.wf j).log
    rw [nodesStep, same]
    exact (keepsLog_noted s j lastslave k).logcounter.ge.trans (logcounter_le_update le_rfl)
  | next i env =>
    apply logcounter_le_update
    rcases (s i).next_cases env with ⟨rest, _, same⟩ | ⟨record, rest, _, _, _, _, _, same⟩
    · rw [same]
    · rw [same]
      exact commit_logcounter_le env (s i).table record false
  | push i data => exact logcounter_le_update (keepsLog_push (s i) data).logcounter.ge
  | drain i env => exact logcounter_le_update (keepsLog_drain (s i) env).logcounter.ge
  | hear i message => exact logcounter_le_update (keepsLog_hear (s i) message).logcounter.ge
  | masterUpdate i cutoff tries =>
    rw [nodesStep]
    split
    · exact le_rfl
    · exact logcounter_le_update (keepsLog_masterUpdate (s i) cutoff tries).logcounter.ge
  | restart i isMaster master =>
    exact logcounter_le_update (restart_logcounter (led.sound i) disciplined.2.1).ge

theorem sound_update {i : ι} {node : Node} (sound : ∀ i, Sound base (s i).table) (changed : Sound base node.table)
    (k : ι) : Sound base (Function.update s i node k).table := by
  by_cases here : k = i
  · subst here
    rwa [Function.update_self]
  · rw [Function.update_of_ne here]
    exact sound k

/-- What leaves stores and counter alone leaves a node sound. -/
theorem KeepsLog.sound {node node' : Node} (kept : KeepsLog node node') (sound : Sound base node.table) :
    Sound base node'.table := by
  have entry (id : ℕ) : logEntry node'.table id = logEntry node.table id := by
    rw [logEntry, kept.logStore, logEntry]
  refine ⟨fun key value ofLog has => ?_, ?_, fun id positive => ?_, fun key offLog => ?_, fun isSeparate => ?_⟩
  · rw [kept.logcounter]
    rw [kept.logStore] at has
    exact sound.logOf key value ofLog has
  · rw [kept.logcounter]
    exact sound.counter
  · rw [entry, kept.logcounter]
    exact sound.contiguous id positive
  · rw [OffLog, kept.logdb] at offLog
    rw [kept.maindb, kept.logcounter, logUpTo_congr fun id _ _ => entry id]
    exact sound.data key offLog
  · rw [kept.logdb] at isSeparate
    rw [kept.maindb]
    exact sound.separate isSeparate

/-- Every node is sound after a step, as single nodes are after theirs. -/
theorem Led.sound_step (led : Led base s) {label : NodesStep ι} (disciplined : Disciplined s label) :
    ∀ k, Sound base (nodesStep s label k).table := by
  cases label with
  | write i env transaction =>
    obtain ⟨offLog, word, unharmed⟩ := disciplined
    have written : Sound base (nodeStep (s i).table (.call env transaction true)) :=
      (led.sound i).step offLog word unharmed
    refine sound_update led.sound ?_
    rw [Node.write]
    split
    · exact written
    · exact led.sound i
  | ask i j limit sent answered =>
    obtain ⟨lastslave, reply, _, same⟩ := ask_cases s i j limit sent answered (led.wf j).log
    have asked (k : ι) : Sound base (noted s j lastslave k).table :=
      (keepsLog_noted s j lastslave k).sound (led.sound k)
    rw [nodesStep, same]
    exact sound_update asked (asked i)
  | next i env =>
    obtain ⟨word, unharmed⟩ := disciplined
    refine sound_update led.sound ?_
    rcases (s i).next_cases env with ⟨rest, _, same⟩ | ⟨record, rest, member, _, _, _, _, same⟩
    · rw [same]
      exact led.sound i
    · have offLog := ((led.wf i).replyOff record member).2
      have committed : Sound base (nodeStep (s i).table (.call env record false)) :=
        (led.sound i).step offLog word (unharmed record member)
      rw [same]
      exact committed
  | push i data => exact sound_update led.sound ((keepsLog_push (s i) data).sound (led.sound i))
  | drain i env => exact sound_update led.sound ((keepsLog_drain (s i) env).sound (led.sound i))
  | hear i message => exact sound_update led.sound ((keepsLog_hear (s i) message).sound (led.sound i))
  | masterUpdate i cutoff tries =>
    rw [nodesStep]
    split
    · exact led.sound
    · exact sound_update led.sound ((keepsLog_masterUpdate (s i) cutoff tries).sound (led.sound i))
  | restart i isMaster master =>
    obtain ⟨fenced, word, _⟩ := disciplined
    have restarted : Sound base (Identt.restart (s i).table) := (led.sound i).restart fenced word
    refine sound_update led.sound ?_
    exact ⟨restarted.logOf, restarted.counter, restarted.contiguous, restarted.data, restarted.separate⟩

/-- What somebody holds after a step is not beyond the log of a master, old or new. -/
theorem Led.ahead_step (led : Led base s) {label : NodesStep ι} (disciplined : Disciplined s label) {m : ι}
    (isMaster : (nodesStep s label m).table.isMaster = true) {holder : ι ⊕ ι} {id : ℕ} {record : TransactionT}
    (holds : HoldsEntry (nodesStep s label) holder id record) : id ≤ (nodesStep s label m).table.logcounter := by
  have bounds := disciplined.withinBounds
  by_cases givesOut : GivesOut s label
  · -- the only master is the one that writes, and nobody else's log changes
    obtain ⟨i, env, transaction, rfl, was, logs⟩ := givesOut
    have same : m = i := by
      rcases role_of_step led.wf disciplined isMaster with before | ⟨_, _, promotes, _⟩
      · exact led.one m i before was
      · contradiction
    subst same
    by_cases here : holder = .inl m
    · subst here
      exact ((nodesStep_wf led.wf bounds m).log.entry holds.1 holds.2).2
    · have before := led.ahead m was holder id record ((holdsEntry_write here id record).mp holds)
      exact before.trans (led.logcounter_le disciplined m)
  · obtain ⟨other, before⟩ := nodesStep_held led.wf bounds givesOut holder id record holds
    refine le_trans ?_ (led.logcounter_le disciplined m)
    rcases role_of_step led.wf disciplined isMaster with was | promotes
    · exact led.ahead m was other id record before
    · obtain ⟨cutoff, tries, rfl, slave, elects⟩ := promotes
      exact (disciplined slave elects).2.ahead led.wf elects before

theorem Led.step (led : Led base s) {label : NodesStep ι} (disciplined : Disciplined s label) :
    Led base (nodesStep s label) := by
  have bounds := disciplined.withinBounds
  refine ⟨nodesStep_wf led.wf bounds, led.sound_step disciplined, (led.agree.step_iff led.wf bounds).mpr (led.fresh label),
    fun i j masterI masterJ => ?_, fun m isMaster holder id record holds => led.ahead_step disciplined isMaster holds⟩
  rcases role_of_step led.wf disciplined masterI with wasI | promotesI
  · rcases role_of_step led.wf disciplined masterJ with wasJ | promotesJ
    · exact led.one i j wasI wasJ
    · obtain ⟨cutoff, tries, rfl, slave, elects⟩ := promotesJ
      have none := (disciplined slave elects).1 i
      rw [wasI] at none
      contradiction
  · obtain ⟨cutoff, tries, rfl, slave, elects⟩ := promotesI
    rcases role_of_step led.wf disciplined masterJ with wasJ | ⟨_, _, same, _⟩
    · have none := (disciplined slave elects).1 j
      rw [wasJ] at none
      contradiction
    · cases same
      rfl

end Step

theorem led_run [DecidableEq ι] {base : DB} {start : ι → Node} (led : Led base start) {labels : List (NodesStep ι)}
    (disciplined : Run.Guarded nodesStep Disciplined start labels) (n : ℕ) :
    Led base (Run.final nodesStep start (labels.take n)) :=
  @Run.invariant_of_guarded _ _ nodesStep (Led base) Disciplined
    (fun _ _ led disciplined => led.step disciplined) start led labels disciplined n

/-- Two nodes on empty stores, of which one is the master. -/
def freshPair (isMaster : Bool) : Node where
  table := { freshNode with isMaster := isMaster, thisurl := if isMaster then ascii "a" else ascii "b" }

theorem led_freshPair : Led freshNode.maindb freshPair := by
  have sound (i : Bool) : Sound freshNode.maindb (freshPair i).table :=
    ⟨sound_freshNode.logOf, sound_freshNode.counter, sound_freshNode.contiguous, sound_freshNode.data,
      sound_freshNode.separate⟩
  have noEntry (holder : Bool ⊕ Bool) (id : ℕ) (record : TransactionT) : ¬ HoldsEntry freshPair holder id record := by
    rcases holder with i | i
    · rintro ⟨positive, has⟩
      have entry := ((sound i).contiguous id positive).mp (by rw [has]; rfl)
      change 2 ≤ id ∧ id ≤ 1 at entry
      omega
    · rintro ⟨_, member, _⟩
      exact List.not_mem_nil member
  refine ⟨fun i => ⟨(sound i).logOf, fun id record positive has => ?_, fun _ member => (List.not_mem_nil member).elim⟩,
    sound, fun i _ id a _ holds _ => (noEntry i id a holds).elim, ?_, fun _ _ holder id record holds =>
      (noEntry holder id record holds).elim⟩
  · exact (noEntry (.inl i) id record ⟨positive, has⟩).elim
  · decide

end Identt.Hrpc
