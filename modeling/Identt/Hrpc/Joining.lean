import Identt.Hrpc.SyncFirst

/-! # What a slave has joined when `SyncFirst` is complete

A node that is not ready refuses everything, so that nothing but its own steps and a restart changes it while it is
in `SyncFirst`. What it pulls continues its log without a gap. So when it gets through, it has all that the node had
which it pulled from last, and it is registered with a node that was the master when it answered.
-/

namespace Identt.Hrpc

open Store StoreTrans Query

section Unready

variable {ι : Type} [DecidableEq ι] {codecs : Codecs} {whoIs : Bytes → Option ι} {s : ι → Host} {i : ι}

variable (unready : (s i).isReady = false)
include unready

theorem deliver_unready (address : Bytes) (delivery : Delivery) (now : UInt64) (r : HttpRequest) :
    (deliver codecs whoIs s address delivery now r).2 i = s i := by
  rw [deliver]
  split
  · rfl
  · next j _ =>
    have kept : Function.update s j (remoteAnswer codecs now (s j) r).2 i = s i := by
      by_cases here : i = j
      · subst here
        rw [Function.update_self, remoteAnswer_unready unready]
      · rw [Function.update_of_ne here]
    cases delivery with
    | lost => rfl
    | answerLost => exact kept
    | answered => exact kept

theorem call_unready {M : Type} {codec : Codec M} {k : ι} {address : Bytes} {cmd : RemoteCmdTypeE} {msg : M}
    {delivery : Delivery} {now : UInt64} {outcome : Bool × M} {after : ι → Host}
    (called : call codecs whoIs codec s k address cmd msg delivery now = (outcome, after)) : after i = s i := by
  rw [call] at called
  cases called
  exact deliver_unready unready address delivery now _

/-- Nothing on the network changes a node that is not ready, but what it does itself and a restart. -/
theorem networkStep_unready {label : NetworkStep ι} (readable : label.Readable) (idle : label.actor ≠ some i)
    (runs : ∀ isMaster master, label ≠ .restart i isMaster master) : networkStep codecs whoIs s label i = s i := by
  have other {k : ι} (isActor : label.actor = some k) : i ≠ k := by
    rintro rfl
    exact idle isActor
  cases label with
  | write k env transaction delivery =>
    cases called : call codecs whoIs codecs.transaction s k (s k).table.lastslave .rBuffTrans
        (numbered env (s k).table transaction true) delivery env.now with
    | mk outcome after =>
      simp only [networkStep, networkWrite, called]
      split
      · rw [Function.update_of_ne (other rfl), call_unready unready called]
      · rw [Function.update_of_ne (other rfl)]
  | pull k limit sent answered delivery =>
    cases called : call codecs whoIs codecs.transList s k (s k).table.master .rTransLog
        (transLogRequest (s k).table limit sent) delivery answered with
    | mk outcome after =>
      simp only [networkStep, called]
      rw [Function.update_of_ne (other rfl), call_unready unready called]
  | intimate k round now delivery =>
    rw [networkStep, networkIntimate]
    cases rounds : (s k).intimating[round]? with
    | none => rfl
    | some pending =>
      obtain ⟨state, addresses⟩ := pending
      cases addresses with
      | nil => rfl
      | cons address rest =>
        cases called : call codecs whoIs codecs.state s k address .rSetInfo state delivery now with
        | mk outcome after =>
          simp only [called]
          rw [Function.update_of_ne (other rfl), call_unready unready called]
  | register k now delivery =>
    rw [networkStep, networkRegister]
    cases attempts : (s k).registering with
    | none => rfl
    | some registering =>
      cases called : call codecs whoIs codecs.state s k registering.newmaster .rRegister registering.state delivery
          now with
      | mk outcome after =>
        simp only [called]
        rw [Function.update_of_ne (other rfl), call_unready unready called]
  | next k env | drain k env | hostUpdate k now | elect k cutoff now | registered k | ready k =>
    exact Function.update_of_ne (other rfl) ..
  | restart k isMaster master =>
    refine Function.update_of_ne ?_ ..
    rintro rfl
    exact runs isMaster master rfl
  | post k now r wild =>
    rw [networkStep_post readable]
    by_cases here : i = k
    · subst here
      rw [Function.update_self, remoteAnswer_unready unready]
    · rw [Function.update_of_ne here]

/-- And nothing that others do in `SyncFirst`. -/
theorem syncFirstStep_unready {k : ι} (other : i ≠ k) (env : SyncFirstEnv) (phase : SyncFirst) :
    (syncFirstStep codecs whoIs s k env phase).2 i = s i := by
  cases phase with
  | comparing | complete | failed => rfl
  | pulling =>
    rw [syncFirstStep, pullingStep_snd]
    refine networkStep_unready unready trivial (fun isActor => ?_) fun _ _ isPost => by cases isPost
    exact other (Option.some.inj isActor).symm
  | committing data =>
    rw [syncFirstStep]
    rcases @committingStep_snd _ _ codecs whoIs s k env data with same | next
    · rw [same]
    · rw [next]
      refine networkStep_unready unready trivial (fun isActor => ?_) fun _ _ isPost => by cases isPost
      exact other (Option.some.inj isActor).symm
  | registering tolcount =>
    rw [syncFirstStep, registeringStep]
    cases called : call codecs whoIs codecs.state s k (s k).table.master .rRegister (ownState (s k).table env.sent)
        env.delivery env.answered with
    | mk outcome after =>
      obtain ⟨status, sstate⟩ := outcome
      have kept := call_unready unready called
      cases status with
      | true =>
        simp only [if_true]
        rw [Function.update_of_ne other, kept]
      | false => exact kept

end Unready

section Received

/-- What is left to commit continues the log of the node up to where the answer says that it ends. -/
structure Receiving (node : Node) (data : TransListT) : Prop where
  run : node.reply.map TransactionT.id = List.range' (node.table.logcounter + 1) node.reply.length
  full : ∀ record ∈ node.reply, record.item ≠ []
  ends : node.table.logcounter + node.reply.length = data.lastid

/-- The next transaction gets committed. -/
theorem Receiving.next {node : Node} {data : TransListT} (receiving : Receiving node data) {transaction : TransactionT}
    {rest : List TransactionT} (left : node.reply = transaction :: rest) {env : CommitEnv}
    (unharmed : Unharmed node.table (.call env transaction false)) :
    transaction.id = node.table.logcounter + 1 ∧ (commit env node.table transaction false).1 = .ok () ∧
      Receiving (node.next env) data := by
  have run := receiving.run
  have ends := receiving.ends
  rw [left, List.map_cons, List.length_cons, List.range'_succ, List.cons.injEq] at run
  rw [left, List.length_cons] at ends
  have nonempty : transaction.item ≠ [] := receiving.full transaction (left ▸ List.mem_cons_self ..)
  obtain ⟨logged, written, accepts⟩ := unharmed.resolve_left nonempty
  have committed := (commit_written node.table false nonempty logged written).1.mpr accepts
  have counter : (commit env node.table transaction false).2.logcounter = node.table.logcounter + 1 := by
    rw [commit_logcounter, if_neg nonempty]
  have next : node.next env = { node with table := (commit env node.table transaction false).2, reply := rest } := by
    rw [Node.next, left, syncNext, if_neg (not_not.mpr run.1)]
    cases done : commit env node.table transaction false with
    | mk result table =>
      obtain rfl : result = .ok () := (congrArg Prod.fst done).symm.trans committed
      rfl
  refine ⟨run.1, committed, ?_⟩
  rw [next]
  refine ⟨?_, fun record member => receiving.full record (left ▸ List.mem_cons_of_mem _ member), ?_⟩
  · rw [counter]
    exact run.2
  · change (commit env node.table transaction false).2.logcounter + rest.length = data.lastid
    omega

/-- What a node is answered that asks for the log behind its own. -/
theorem transLog_answer {asked slave : SharedTable} {limit : ℕ} {sent now : UInt64} {data : TransListT}
    (gapFree : GapFree asked 2) (word : asked.logcounter < 2 ^ 64) (begun : 1 ≤ slave.logcounter)
    (answered : (transLog asked (transLogRequest slave limit sent) now).1 = .ok data) :
    data.currid = asked.logcounter ∧ slave.logcounter + data.trans.length = data.lastid ∧
      data.trans.map TransactionT.id = List.range' (slave.logcounter + 1) data.trans.length := by
  have goesOn : 2 ≤ slave.logcounter + 1 := by omega
  rw [transLog] at answered
  rcases Nat.lt_trichotomy slave.logcounter asked.logcounter with behind | current | ahead
  · have isAhead : ¬ (transLogRequest slave limit sent).lastid > asked.logcounter := not_lt.mpr behind.le
    have isCurrent : ¬ (transLogRequest slave limit sent).lastid = asked.logcounter := behind.ne
    have answers : readLog asked (transLogRequest slave limit sent) now = _ :=
      gapFree.readLog_behind word goesOn behind now
    have length := (gapFree.logBehind_run goesOn).2
    have ids := gapFree.logBehind_ids goesOn
    have few : ((logBehind asked slave.logcounter).take (limit + 1)).length =
        min (asked.logcounter - slave.logcounter) (limit + 1) := by
      rw [List.length_take, length, Nat.min_comm]
    rw [if_neg isAhead, if_neg isCurrent, answers] at answered
    obtain rfl := Except.ok.inj answered
    refine ⟨rfl, ?_, ?_⟩
    · exact congrArg (slave.logcounter + ·) few
    · change ((logBehind asked slave.logcounter).take (limit + 1)).map TransactionT.id =
        List.range' (slave.logcounter + 1) ((logBehind asked slave.logcounter).take (limit + 1)).length
      rw [few, List.map_take, ids, length]
      rcases Nat.le_total (limit + 1) (asked.logcounter - slave.logcounter) with less | more
      · rw [Nat.min_eq_right less, List.take_range'_of_length_ge less]
      · rw [Nat.min_eq_left more, List.take_range'_of_length_le more]
  · have isAhead : ¬ (transLogRequest slave limit sent).lastid > asked.logcounter := not_lt.mpr current.le
    rw [if_neg isAhead, if_pos (show (transLogRequest slave limit sent).lastid = asked.logcounter from current)] at answered
    obtain rfl := Except.ok.inj answered
    exact ⟨rfl, rfl, rfl⟩
  · rw [if_pos (show (transLogRequest slave limit sent).lastid > asked.logcounter from ahead)] at answered
    contradiction

end Received

section Phases

variable {ι : Type} [DecidableEq ι] (codecs : Codecs) (whoIs : Bytes → Option ι)

/-- A node in `SyncFirst` asks a node for the log behind its own, and what the log counter of that one is. -/
def PullsFrom (i : ι) (source : ι × ℕ) (s : Starting ι) (label : StartStep ι) : Prop :=
  (∃ env, label = .syncFirst i env) ∧ s.syncFirst i = some .pulling ∧
    whoIs (s.hosts i).table.master = some source.1 ∧ (s.hosts source.1).table.logcounter = source.2

/-- The last one that the node asked in `SyncFirst` had this counter then. -/
def LastPulled (start : Starting ι) (past : List (StartStep ι)) (i : ι) (counter : ℕ) : Prop :=
  ∃ p, Run.Latest (startStep codecs whoIs) (PullsFrom whoIs i) start past (p, counter)

/-- A node that is out of reach. -/
structure Aside (host : Host) : Prop where
  unready : host.isReady = false
  slave : host.table.isMaster = false

/-- What is true of a node that is so far. -/
def SoFar (start : Starting ι) (past : List (StartStep ι)) (i : ι) (host : Host) : SyncFirst → Prop
  | .committing data => Receiving host.toNode data ∧ LastPulled codecs whoIs start past i data.currid
  | .registering _ => LastPulled codecs whoIs start past i host.table.logcounter
  | _ => True

variable {codecs whoIs} {start : Starting ι} {past : List (StartStep ι)} {i : ι}

theorem LastPulled.concat {counter : ℕ} (last : LastPulled codecs whoIs start past i counter) {label : StartStep ι}
    (other : ∀ source, ¬ PullsFrom whoIs i source (Run.final (startStep codecs whoIs) start past) label) :
    LastPulled codecs whoIs start (past ++ [label]) i counter := by
  obtain ⟨p, latest⟩ := last
  exact ⟨p, Run.latest_concat.mpr (.inr ⟨other, latest⟩)⟩

theorem SoFar.concat {host : Host} {phase : SyncFirst} (soFar : SoFar codecs whoIs start past i host phase)
    {label : StartStep ι}
    (other : ∀ source, ¬ PullsFrom whoIs i source (Run.final (startStep codecs whoIs) start past) label) :
    SoFar codecs whoIs start (past ++ [label]) i host phase := by
  cases phase with
  | committing data => exact ⟨soFar.1, soFar.2.concat other⟩
  | registering tolcount => exact LastPulled.concat soFar other
  | comparing | pulling | complete | failed => trivial

section Own

variable {base : DB} {s : ι → Host} {env : SyncFirstEnv}

/-- A node that is sound has its log from the second transaction on. -/
theorem gapFree_of_sound {st : SharedTable} (sound : Sound base st) : GapFree st 2 :=
  ⟨sound.logOf, by decide, Nat.succ_le_succ sound.counter, sound.contiguous⟩

/-- A pull fails, or brings what continues the log up to where the node that was asked says that it ends. -/
theorem pullingStep_outcome (faithful : codecs.transList.Faithful) (led : Led base (nodes s)) (full : Full (nodes s))
    (words : ∀ j, (s j).table.logcounter < 2 ^ 64) (aside : Aside (s i)) :
    Aside ((pullingStep codecs whoIs s i env).2 i) ∧
    ((pullingStep codecs whoIs s i env).1 = .failed ∨ ∃ p data, whoIs (s i).table.master = some p ∧
      (pullingStep codecs whoIs s i env).1 = .committing data ∧ data.currid = (s p).table.logcounter ∧
      Receiving ((pullingStep codecs whoIs s i env).2 i).toNode data) := by
  rw [pullingStep]
  cases called : call codecs whoIs codecs.transList s i (s i).table.master .rTransLog
      (transLogRequest (s i).table syncFirstChunkSize env.sent) env.delivery env.answered with
  | mk outcome after =>
    obtain ⟨status, data⟩ := outcome
    simp only [Function.update_self, call_unready aside.unready called]
    refine ⟨⟨aside.unready, aside.slave⟩, ?_⟩
    cases status with
    | false => exact .inl rfl
    | true =>
      have dispatch : remoteService codecs env.answered .rTransLog =
          respond codecs.transList (Host.transLog env.answered) := rfl
      obtain ⟨p, known, answer, _⟩ := call_succeeds faithful (by decide) dispatch called
      have answered : (transLog (s p).table (transLogRequest (s i).table syncFirstChunkSize env.sent)
          env.answered).1 = .ok data := answer
      have soundAsked : Sound base (s p).table := led.sound p
      have soundSlave : Sound base (s i).table := led.sound i
      obtain ⟨currid, lastid, run⟩ :=
        transLog_answer (gapFree_of_sound soundAsked) (words p) soundSlave.counter answered
      refine .inr ⟨p, data, known, rfl, currid, run, fun record member => ?_, lastid⟩
      exact full (.inl p) record.id record (transLog_mem soundAsked.logOf rfl answered member)

/-- A commit of what was received goes well, and when nothing is left the log is the answer's. -/
theorem committingStep_outcome {data : TransListT} (receiving : Receiving (s i).toNode data) (aside : Aside (s i))
    (disciplined : NetworkDisciplined s (.next i env.commit)) :
    Aside ((committingStep s i env data).2 i) ∧
    ((committingStep s i env data).1 = .committing data ∧ Receiving ((committingStep s i env data).2 i).toNode data ∨
      (committingStep s i env data).1 = .pulling ∨
      ((committingStep s i env data).1 = .registering 0 ∧
        ((committingStep s i env data).2 i).table.logcounter = data.currid)) := by
  cases left : (s i).reply with
  | nil =>
    have ends := receiving.ends
    rw [left, List.length_nil] at ends
    simp only [committingStep, left]
    refine ⟨aside, .inr ?_⟩
    split
    · next done => exact .inr ⟨rfl, ends.trans done⟩
    · exact .inl rfl
  | cons transaction rest =>
    have unharmed : Unharmed (s i).table (.call env.commit transaction false) :=
      disciplined.2 transaction (left ▸ List.mem_cons_self ..)
    obtain ⟨next, committed, receives⟩ := receiving.next left unharmed
    simp only [committingStep, left, if_neg (not_not.mpr next), committed, Function.update_self]
    refine ⟨⟨aside.unready, ?_⟩, .inl ⟨trivial, receives⟩⟩
    change ((s i).toNode.next env.commit).table.isMaster = false
    rcases (s i).toNode.next_cases env.commit with ⟨_, _, same⟩ | ⟨_, _, _, _, _, _, _, same⟩
    · rw [same]
      exact aside.slave
    · rw [same]
      exact commit_isMaster.trans aside.slave

theorem takeAnswer_isMaster (st : SharedTable) (sstate : StateT) : (takeAnswer st sstate).isMaster = st.isMaster :=
  (forgets_takeAnswer { table := st } sstate).isMaster

theorem takeAnswer_logcounter (st : SharedTable) (sstate : StateT) :
    (takeAnswer st sstate).logcounter = st.logcounter := (forgets_takeAnswer { table := st } sstate).logcounter

/-- A registration keeps the log, and is not followed by anything before it but another one. -/
theorem registeringStep_outcome {tolcount : ℕ} (aside : Aside (s i)) :
    Aside ((registeringStep codecs whoIs s i env tolcount).2 i) ∧
    ((registeringStep codecs whoIs s i env tolcount).2 i).table.logcounter = (s i).table.logcounter ∧
    ((registeringStep codecs whoIs s i env tolcount).1 = .failed ∨
      (registeringStep codecs whoIs s i env tolcount).1 = .complete ∨
      (registeringStep codecs whoIs s i env tolcount).1 = .registering (tolcount + 1)) := by
  rw [registeringStep]
  cases called : call codecs whoIs codecs.state s i (s i).table.master .rRegister (ownState (s i).table env.sent)
      env.delivery env.answered with
  | mk outcome after =>
    obtain ⟨status, sstate⟩ := outcome
    have kept := call_unready aside.unready called
    cases status with
    | false =>
      simp only [Bool.false_eq_true, if_false, kept]
      exact ⟨aside, trivial, .inl trivial⟩
    | true =>
      simp only [if_true, Function.update_self, kept]
      refine ⟨⟨aside.unready, (takeAnswer_isMaster _ sstate).trans aside.slave⟩, takeAnswer_logcounter .., ?_⟩
      split_ifs
      · exact .inl rfl
      · exact .inr (.inl rfl)
      · exact .inr (.inr rfl)

end Own

/-- Nodes that are led, of which those in `SyncFirst` are out of reach and sound so far. -/
structure Started (codecs : Codecs) (whoIs : Bytes → Option ι) (base : DB) (start : Starting ι)
    (past : List (StartStep ι)) (s : Starting ι) : Prop where
  led : Led base (nodes s.hosts)
  full : Full (nodes s.hosts)
  soFar : ∀ i phase, s.syncFirst i = some phase → phase ≠ .complete →
    Aside (s.hosts i) ∧ SoFar codecs whoIs start past i (s.hosts i) phase

theorem startStep_syncFirst {s : Starting ι} {phase : SyncFirst} (has : s.syncFirst i = some phase) (env : SyncFirstEnv) :
    startStep codecs whoIs s (.syncFirst i env) =
      ⟨(syncFirstStep codecs whoIs s.hosts i env phase).2,
        Function.update s.syncFirst i (some (syncFirstStep codecs whoIs s.hosts i env phase).1)⟩ := by
  rw [startStep, has]

theorem starts_of_runs {syncFirst : ι → Option SyncFirst} {label : NetworkStep ι}
    (runs : ∀ isMaster master, label ≠ .restart i isMaster master) : label.starts syncFirst i = syncFirst i := by
  cases label with
  | restart k isMaster master =>
    refine Function.update_of_ne ?_ ..
    rintro rfl
    exact runs isMaster master rfl
  | _ => rfl

section Started

variable {base : DB} {s : Starting ι}

/-- A step of its own takes a node on in `SyncFirst`. -/
theorem Started.own (faithful : codecs.transList.Faithful)
    (started : Started codecs whoIs base start past (Run.final (startStep codecs whoIs) start past)) {env : SyncFirstEnv}
    (orderly : Orderly (Run.final (startStep codecs whoIs) start past) (.syncFirst i env)) {phase : SyncFirst}
    (has : (Run.final (startStep codecs whoIs) start past).syncFirst i = some phase) (unfinished : phase ≠ .complete) :
    let next := syncFirstStep codecs whoIs (Run.final (startStep codecs whoIs) start past).hosts i env phase
    Aside (next.2 i) ∧ SoFar codecs whoIs start (past ++ [.syncFirst i env]) i (next.2 i) next.1 := by
  intro next
  obtain ⟨aside, soFar⟩ := started.soFar i phase has unfinished
  have noPull (other : phase ≠ .pulling) (source : ι × ℕ) :
      ¬ PullsFrom whoIs i source (Run.final (startStep codecs whoIs) start past) (.syncFirst i env) := by
    rintro ⟨_, pulls, _⟩
    exact other (Option.some.inj (has.symm.trans pulls))
  cases phase with
  | complete => contradiction
  | failed => exact ⟨aside, trivial⟩
  | comparing =>
    refine ⟨aside, ?_⟩
    change SoFar codecs whoIs start _ i _ (comparingStep codecs whoIs _ i env)
    rw [comparingStep]
    split <;> trivial
  | pulling =>
    obtain ⟨aside', outcome⟩ := @pullingStep_outcome _ _ codecs whoIs i base _ env faithful started.led started.full
      orderly.2 aside
    refine ⟨aside', ?_⟩
    change SoFar codecs whoIs start _ i _ (pullingStep codecs whoIs _ i env).1
    rcases outcome with failed | ⟨p, data, known, answered, currid, receiving⟩
    · rw [failed]
      trivial
    · rw [answered]
      exact ⟨receiving, p, Run.latest_concat.mpr (.inl ⟨⟨env, rfl⟩, has, known, currid.symm⟩)⟩
  | committing data =>
    obtain ⟨receiving, last⟩ := soFar
    have last' := last.concat (noPull nofun)
    obtain ⟨aside', outcome⟩ := committingStep_outcome receiving aside orderly.1
    refine ⟨aside', ?_⟩
    change SoFar codecs whoIs start _ i _ (committingStep _ i env data).1
    rcases outcome with ⟨goesOn, receives⟩ | again | ⟨done, counter⟩
    · rw [goesOn]
      exact ⟨receives, last'⟩
    · rw [again]
      trivial
    · rw [done]
      change LastPulled codecs whoIs start _ i ((committingStep _ i env data).2 i).table.logcounter
      rwa [counter]
  | registering tolcount =>
    have last' := LastPulled.concat soFar (noPull nofun)
    obtain ⟨aside', counter, outcome⟩ := @registeringStep_outcome _ _ codecs whoIs i
      (Run.final (startStep codecs whoIs) start past).hosts env tolcount aside
    refine ⟨aside', ?_⟩
    change SoFar codecs whoIs start _ i _ (registeringStep codecs whoIs _ i env tolcount).1
    rcases outcome with failed | complete | again
    · rw [failed]
      trivial
    · rw [complete]
      trivial
    · rw [again]
      change LastPulled codecs whoIs start _ i ((registeringStep codecs whoIs _ i env tolcount).2 i).table.logcounter
      rwa [counter]

theorem Started.step (faithful : codecs.transList.Faithful)
    (started : Started codecs whoIs base start past (Run.final (startStep codecs whoIs) start past))
    {label : StartStep ι} (orderly : Orderly (Run.final (startStep codecs whoIs) start past) label) :
    Started codecs whoIs base start (past ++ [label])
      (startStep codecs whoIs (Run.final (startStep codecs whoIs) start past) label) := by
  have kept : Led base (nodes (startStep codecs whoIs (Run.final (startStep codecs whoIs) start past) label).hosts) ∧
      Full (nodes (startStep codecs whoIs (Run.final (startStep codecs whoIs) start past) label).hosts) := by
    rcases startStep_cases faithful orderly with forgets | ⟨own, disciplined, forgets⟩
    · exact ⟨started.led.forgets forgets, started.full.forgets forgets⟩
    · exact ⟨(started.led.step disciplined).forgets forgets,
        (started.full.step started.led.wf disciplined).forgets forgets⟩
  refine ⟨kept.1, kept.2, fun i phase has unfinished => ?_⟩
  cases label with
  | network label =>
    by_cases restarts : ∃ isMaster master, label = .restart i isMaster master
    · obtain ⟨isMaster, master, rfl⟩ := restarts
      simp only [startStep, NetworkStep.starts, Function.update_self] at has
      cases isMaster with
      | true => contradiction
      | false =>
        cases has
        simp only [startStep, networkStep, Function.update_self]
        exact ⟨⟨rfl, rfl⟩, trivial⟩
    · have runs (isMaster : Bool) (master : Bytes) : label ≠ .restart i isMaster master :=
        fun same => restarts ⟨isMaster, master, same⟩
      simp only [startStep, starts_of_runs runs] at has
      obtain ⟨aside, soFar⟩ := started.soFar i phase has unfinished
      have idle : label.actor ≠ some i := fun isActor => orderly.2 i isActor ⟨phase, has, unfinished⟩
      simp only [startStep, networkStep_unready aside.unready orderly.1.readable idle runs]
      refine ⟨aside, soFar.concat ?_⟩
      rintro source ⟨⟨env, isOwn⟩, _⟩
      contradiction
  | syncFirst k env =>
    cases before : (Run.final (startStep codecs whoIs) start past).syncFirst k with
    | none =>
      rw [startStep, before] at has ⊢
      obtain ⟨aside, soFar⟩ := started.soFar i phase has unfinished
      refine ⟨aside, soFar.concat ?_⟩
      rintro source ⟨⟨env', isOwn⟩, pulls, _⟩
      cases isOwn
      rw [before] at pulls
      contradiction
    | some current =>
      simp only [startStep_syncFirst before] at has ⊢
      by_cases here : i = k
      · subst here
        rw [Function.update_self] at has
        obtain rfl := Option.some.inj has
        refine started.own faithful orderly before ?_
        rintro rfl
        exact unfinished rfl
      · rw [Function.update_of_ne here] at has
        obtain ⟨aside, soFar⟩ := started.soFar i phase has unfinished
        simp only [syncFirstStep_unready aside.unready here]
        refine ⟨aside, soFar.concat ?_⟩
        rintro source ⟨⟨env', isOwn⟩, _⟩
        cases isOwn
        exact here rfl

end Started

section Complete

variable (codecs whoIs) in
/-- The step ends `SyncFirst` on the node, and nothing was thrown. -/
def Completes (i : ι) (s : Starting ι) (label : StartStep ι) : Prop :=
  s.Unfinished i ∧ (startStep codecs whoIs s label).syncFirst i = some .complete

/-- It is a registration that ends it. -/
theorem Completes.registers {s : Starting ι} {label : StartStep ι} (completes : Completes codecs whoIs i s label) :
    ∃ env tolcount, label = .syncFirst i env ∧ s.syncFirst i = some (.registering tolcount) ∧
      (registeringStep codecs whoIs s.hosts i env tolcount).1 = .complete := by
  obtain ⟨⟨phase, has, unfinished⟩, complete⟩ := completes
  cases label with
  | network label =>
    by_cases restarts : ∃ isMaster master, label = .restart i isMaster master
    · obtain ⟨isMaster, master, rfl⟩ := restarts
      simp only [startStep, NetworkStep.starts, Function.update_self] at complete
      cases isMaster <;> contradiction
    · simp only [startStep, starts_of_runs fun isMaster master same => restarts ⟨isMaster, master, same⟩, has] at complete
      exact (unfinished (Option.some.inj complete)).elim
  | syncFirst k env =>
    cases before : s.syncFirst k with
    | none =>
      rw [startStep, before, has] at complete
      exact (unfinished (Option.some.inj complete)).elim
    | some current =>
      simp only [startStep_syncFirst before] at complete
      by_cases here : i = k
      · subst here
        rw [Function.update_self] at complete
        obtain rfl := Option.some.inj (has.symm.trans before)
        have ends := Option.some.inj complete
        cases phase with
        | registering tolcount => exact ⟨env, tolcount, rfl, before, ends⟩
        | complete => exact (unfinished rfl).elim
        | failed => contradiction
        | comparing =>
          change comparingStep codecs whoIs s.hosts i env = _ at ends
          rw [comparingStep] at ends
          split at ends <;> contradiction
        | pulling =>
          change (pullingStep codecs whoIs s.hosts i env).1 = _ at ends
          simp only [pullingStep] at ends
          split at ends <;> contradiction
        | committing data =>
          change (committingStep s.hosts i env data).1 = _ at ends
          rw [committingStep] at ends
          split at ends
          · simp only at ends
            split at ends <;> contradiction
          · split at ends
            · contradiction
            · split at ends <;> contradiction
      · rw [Function.update_of_ne here, has] at complete
        exact (unfinished (Option.some.inj complete)).elim

end Complete

end Phases

end Identt.Hrpc
