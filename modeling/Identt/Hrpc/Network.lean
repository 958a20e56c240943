import Identt.Hrpc.Failover
import Identt.Hrpc.RemoteEndpoint

/-! # Nodes and the posts between them

Here nodes reach each other through the network alone. A post, or the answer to it, may get lost; its address may be
nobody's; the node there may have another secret or not be ready; and anybody may post anything to anyone. A post
without the header that its handler takes for granted leaves open what becomes of the node. The master replicates to the slave that is in sync, rounds of `HostUpdate` and attempts to register go on while other
things happen.
-/

namespace Identt.Hrpc

open Store StoreTrans Query

/-- What becomes of a post. -/
inductive Delivery where
  | lost | answerLost | answered
deriving DecidableEq, Repr

inductive NetworkStep (ι : Type) where
  /-- A write request, which only a master commits itself. -/
  | write (i : ι) (env : CommitEnv) (transaction : TransactionT) (delivery : Delivery)
  /-- A node asks the one that it takes for the master. -/
  | pull (i : ι) (limit : ℕ) (sent answered : UInt64) (delivery : Delivery)
  /-- It takes the next transaction of the answer. -/
  | next (i : ι) (env : CommitEnv)
  | drain (i : ι) (env : ℕ → CommitEnv)
  | hostUpdate (i : ι) (now : UInt64)
  /-- One of the node's rounds of `HostUpdate` goes on to the next remote. -/
  | intimate (i : ι) (round : ℕ) (now : UInt64) (delivery : Delivery)
  /-- The first half of `MasterUpdate`. -/
  | elect (i : ι) (cutoff now : UInt64)
  /-- An attempt to register with the node that was elected, and the end of the attempt. -/
  | register (i : ι) (now : UInt64) (delivery : Delivery)
  | registered (i : ι)
  | restart (i : ι) (isMaster : Bool) (master : Bytes)
  /-- A node that stopped or started is ready from now on. -/
  | ready (i : ι)
  /-- Anybody posts anything; `wild` is what becomes of the node if the handler dereferences `header.end()`. -/
  | post (i : ι) (now : UInt64) (r : HttpRequest) (wild : Host)

section Step

variable {ι : Type} [DecidableEq ι] (codecs : Codecs) (whoIs : Bytes → Option ι)

/-- The answer to a post, and what it leaves; without an answer there is no status. -/
def deliver (s : ι → Host) (address : Bytes) (delivery : Delivery) (now : UInt64) (r : HttpRequest) :
    HttpResponse × (ι → Host) :=
  match whoIs address with
  | none => ({ statusCode := 0 }, s)
  | some j =>
    let (answer, host) := remoteAnswer codecs now (s j) r
    match delivery with
    | .lost => ({ statusCode := 0 }, s)
    | .answerLost => ({ statusCode := 0 }, Function.update s j host)
    | .answered => (answer, Function.update s j host)

/-- `SendToRemote` from a node: its status and the message afterwards, and what it leaves. -/
def call {M : Type} (codec : Codec M) (s : ι → Host) (i : ι) (address : Bytes) (cmd : RemoteCmdTypeE) (msg : M)
    (delivery : Delivery) (now : UInt64) : (Bool × M) × (ι → Host) :=
  (sendToRemote codec (s i).sharedSecret cmd msg fun r => (deliver codecs whoIs s address delivery now r).1,
    (deliver codecs whoIs s address delivery now (posted codec (s i).sharedSecret cmd msg)).2)

/-- Whether a commit of the node gets as far as replicating. -/
def replicates (env : CommitEnv) (st : SharedTable) (transaction : TransactionT) : Bool :=
  st.isMaster && !transaction.item.isEmpty && env.logPut && env.dataWrite && !st.lastslave.isEmpty

/-- A write request: the copy goes to the last slave, which is forgotten if it does not take it. -/
def networkWrite (s : ι → Host) (i : ι) (env : CommitEnv) (transaction : TransactionT) (delivery : Delivery) :
    ι → Host :=
  let table := (s i).table
  let ((status, _), after) := call codecs whoIs codecs.transaction s i table.lastslave .rBuffTrans
    (numbered env table transaction true) delivery env.now
  let written := { s i with toNode := (s i).toNode.write { env with buffTrans := status } transaction }
  -- a master takes no copy, so it does not matter that the copy is sent before the node is updated here
  if replicates env table transaction then Function.update after i written else Function.update s i written

/-- A round of `HostUpdate` goes on: the message is also the buffer for the answer. -/
def networkIntimate (s : ι → Host) (i : ι) (round : ℕ) (now : UInt64) (delivery : Delivery) : ι → Host :=
  match (s i).intimating[round]? with
  | some (state, address :: rest) =>
    let ((_, state), s) := call codecs whoIs codecs.state s i address .rSetInfo state delivery now
    Function.update s i { s i with intimating := (s i).intimating.set round (state, rest) }
  | _ => s

/-- `MasterUpdate` up to the attempts to register. -/
def Host.elect (host : Host) (cutoff now : UInt64) : Host :=
  if host.table.isMaster then host
  else
    { host with
      table := masterUpdate cutoff [] host.table
      registering :=
        if Hrpc.elect cutoff host.table = host.table.thisurl then none
        else some { newmaster := Hrpc.elect cutoff host.table, state := getHosts host.table now } }

def networkRegister (s : ι → Host) (i : ι) (now : UInt64) (delivery : Delivery) : ι → Host :=
  match (s i).registering with
  | some registering =>
    let ((status, state), s) :=
      call codecs whoIs codecs.state s i registering.newmaster .rRegister registering.state delivery now
    Function.update s i { s i with registering := some { registering with state := state, status := some status } }
  | none => s

/-- An attempt that succeeded sets the master; of the others at most ten are made. -/
def Host.registered (host : Host) : Host :=
  match host.registering with
  | some { newmaster, status := some true, .. } =>
    { host with table := { host.table with master := newmaster }, registering := none }
  | some { newmaster, state, retries, status := some false } =>
    { host with registering := if retries + 1 < 10 then some { newmaster, state, retries := retries + 1 } else none }
  | _ => host

def networkStep (s : ι → Host) : NetworkStep ι → ι → Host
  | .write i env transaction delivery => networkWrite codecs whoIs s i env transaction delivery
  | .pull i limit sent answered delivery =>
    let ((status, data), s) := call codecs whoIs codecs.transList s i (s i).table.master .rTransLog
      (transLogRequest (s i).table limit sent) delivery answered
    Function.update s i { s i with reply := if status then data.trans else [] }
  | .next i env => Function.update s i { s i with toNode := (s i).toNode.next env }
  | .drain i env =>
    Function.update s i { s i with toNode := { (s i).toNode with toSlave := Hrpc.drain env (s i).toSlave } }
  | .hostUpdate i now => Function.update s i ((s i).hostUpdate now)
  | .intimate i round now delivery => networkIntimate codecs whoIs s i round now delivery
  | .elect i cutoff now => Function.update s i ((s i).elect cutoff now)
  | .register i now delivery => networkRegister codecs whoIs s i now delivery
  | .registered i => Function.update s i (s i).registered
  | .restart i isMaster master =>
    Function.update s i { toNode := (s i).toNode.restart isMaster master, sharedSecret := (s i).sharedSecret }
  | .ready i => Function.update s i { s i with isReady := true }
  | .post i now r wild => Function.update s i (((remoteEndpoint codecs now (s i) r).map Prod.snd).getD wild)

end Step

/-- The nodes behind their endpoints. -/
def nodes {ι : Type} (s : ι → Host) (i : ι) : Node := (s i).toNode

/-- Posts are such that the handler can read them. -/
def NetworkStep.Readable {ι : Type} : NetworkStep ι → Prop
  | .post _ _ r _ => r.Readable
  | _ => True

/-- What the nodes do themselves is disciplined; messages, and posts that can be read, may be anything. -/
def NetworkDisciplined {ι : Type} (s : ι → Host) : NetworkStep ι → Prop
  | .post _ _ r _ => r.Readable
  | .write i env transaction _ => Disciplined (nodes s) (.write i env transaction)
  | .next i env => Disciplined (nodes s) (.next i env)
  | .elect i cutoff _ => Disciplined (nodes s) (.masterUpdate i cutoff [])
  | .restart i isMaster master => Disciplined (nodes s) (.restart i isMaster master)
  | _ => True

theorem NetworkDisciplined.readable {ι : Type} {s : ι → Host} {label : NetworkStep ι}
    (disciplined : NetworkDisciplined s label) : label.Readable := by
  cases label with
  | post i now r wild => exact disciplined
  | _ => trivial

section Led

variable {ι : Type} {base : DB}

/-- Forgetting adds nothing to a log or to what is left to commit. -/
theorem holdsEntry_of_forgets {s s' : ι → Node} (forgets : ∀ i, Forgets (s i) (s' i)) {holder : ι ⊕ ι} {id : ℕ}
    {record : TransactionT} (holds : HoldsEntry s' holder id record) : HoldsEntry s holder id record := by
  rcases holder with i | i
  · refine ⟨holds.1, ?_⟩
    have logStore : (s' i).table.logStore = (s i).table.logStore := by
      rw [SharedTable.logStore, (forgets i).logdb, (forgets i).maindb, SharedTable.logStore]
    rw [logEntry, ← logStore]
    exact holds.2
  · exact ⟨holds.1, (forgets i).reply record holds.2.1, holds.2.2⟩

/-- Nodes that forget something stay led. -/
theorem Led.forgets {s s' : ι → Node} (led : Led base s) (forgets : ∀ i, Forgets (s i) (s' i)) : Led base s' := by
  -- a node that forgot its answer has the log of the node before
  have kept (i : ι) : KeepsLog (s i) { s' i with reply := (s i).reply } :=
    ⟨(forgets i).maindb, (forgets i).logdb, (forgets i).logcounter, rfl⟩
  refine ⟨fun i => ?_, fun i => (kept i).sound (led.sound i), fun left right id a b holdsA holdsB => ?_,
    fun i j isMasterI isMasterJ => ?_, fun m isMaster holder id record holds => ?_⟩
  · have wf := (kept i).wf (led.wf i)
    exact ⟨wf.log, wf.logOff, fun record member => (led.wf i).replyOff record ((forgets i).reply record member)⟩
  · exact led.agree left right id a b (holdsEntry_of_forgets forgets holdsA) (holdsEntry_of_forgets forgets holdsB)
  · exact led.one i j ((forgets i).isMaster ▸ isMasterI) ((forgets j).isMaster ▸ isMasterJ)
  · rw [(forgets m).logcounter]
    exact led.ahead m ((forgets m).isMaster ▸ isMaster) holder id record (holdsEntry_of_forgets forgets holds)

section Network

variable [DecidableEq ι] {codecs : Codecs} {whoIs : Bytes → Option ι} {s : ι → Host}

theorem nodes_update (i : ι) (host : Host) : nodes (Function.update s i host) = Function.update (nodes s) i host.toNode := by
  funext k
  by_cases here : k = i
  · subst here
    rw [nodes, Function.update_self, Function.update_self]
  · rw [nodes, Function.update_of_ne here, Function.update_of_ne here, nodes]

theorem forgets_update {i : ι} {host : Host} (forgets : Forgets (s i).toNode host.toNode) (k : ι) :
    Forgets (nodes s k) (nodes (Function.update s i host) k) := by
  rw [nodes_update]
  by_cases here : k = i
  · subst here
    rw [Function.update_self]
    exact forgets
  · rw [Function.update_of_ne here]
    exact Forgets.refl _

/-- A post changes no node but the one it gets to, and nothing that this one has. -/
theorem forgets_deliver (address : Bytes) (delivery : Delivery) (now : UInt64) (r : HttpRequest) (k : ι) :
    Forgets (nodes s k) (nodes (deliver codecs whoIs s address delivery now r).2 k) := by
  rw [deliver]
  split
  · exact Forgets.refl _
  · cases delivery with
    | lost => exact Forgets.refl _
    | answerLost => exact forgets_update (forgets_remoteAnswer r) k
    | answered => exact forgets_update (forgets_remoteAnswer r) k

section Call

variable {M : Type} {codec : Codec M} {i : ι} {address : Bytes} {cmd : RemoteCmdTypeE} {msg : M} {delivery : Delivery}
  {now : UInt64} {after : ι → Host}

theorem forgets_call {outcome : Bool × M}
    (called : call codecs whoIs codec s i address cmd msg delivery now = (outcome, after)) (k : ι) :
    Forgets (nodes s k) (nodes after k) := by
  rw [call] at called
  cases called
  exact forgets_deliver address delivery now _ k

/-- A call that succeeds was answered by the node with that address, with what this one made of the message. -/
theorem call_succeeds (faithful : codec.Faithful) {action : Host → M → Except Exn M × Host}
    (isCmd : cmd ≠ .rNoAction) (dispatch : remoteService codecs now cmd = respond codec action) {result : M}
    (called : call codecs whoIs codec s i address cmd msg delivery now = ((true, result), after)) :
    ∃ j, whoIs address = some j ∧ (action (s j) msg).1 = .ok result ∧
      after = Function.update s j (action (s j) msg).2 := by
  have unanswered : sendToRemote codec (s i).sharedSecret cmd msg (fun _ => { statusCode := 0 }) ≠ (true, result) := by
    simp [sendToRemote]
  obtain ⟨got, left⟩ := Prod.mk.inj called
  simp only [deliver] at got left
  cases known : whoIs address with
  | none =>
    rw [known] at got
    exact (unanswered got).elim
  | some j =>
    rw [known] at got left
    cases delivery with
    | lost | answerLost => exact (unanswered got).elim
    | answered =>
      obtain ⟨answer, effect⟩ := call_sound faithful isCmd dispatch got
      exact ⟨j, rfl, answer, left.symm.trans (congrArg (Function.update s j) effect)⟩

end Call

/-- A pull brings what the node that is asked has behind the log, or nothing. -/
theorem pull_cases (faithful : codecs.transList.Faithful) (i : ι) (limit : ℕ) (sent answered : UInt64)
    (delivery : Delivery) :
    (∀ k, Forgets (nodes s k) (nodes (networkStep codecs whoIs s (.pull i limit sent answered delivery)) k)) ∨
    ∃ j, nodes (networkStep codecs whoIs s (.pull i limit sent answered delivery)) =
      nodesStep (nodes s) (.ask i j limit sent answered) := by
  cases called : call codecs whoIs codecs.transList s i (s i).table.master .rTransLog
      (transLogRequest (s i).table limit sent) delivery answered with
  | mk outcome after =>
    obtain ⟨status, data⟩ := outcome
    simp only [networkStep, called]
    cases status with
    | false =>
      refine .inl fun k => (forgets_call called k).trans (forgets_update ?_ k)
      exact ⟨rfl, rfl, rfl, rfl, fun _ member => (List.not_mem_nil member).elim⟩
    | true =>
      have dispatch : remoteService codecs answered .rTransLog = respond codecs.transList (Host.transLog answered) := rfl
      obtain ⟨j, _, answer, rfl⟩ := call_succeeds faithful (by decide) dispatch called
      refine .inr ⟨j, ?_⟩
      cases asked : Hrpc.transLog (s j).table (transLogRequest (s i).table limit sent) answered with
      | mk result table =>
        have same : (s j).transLog answered (transLogRequest (s i).table limit sent) =
            (result, { s j with table := table }) := by rw [Host.transLog, asked]
        rw [same] at answer
        obtain rfl : result = .ok data := answer
        have asks : Hrpc.transLog (nodes s j).table (transLogRequest (nodes s i).table limit sent) answered =
          (.ok data, table) := asked
        rw [nodes_update, nodes_update, nodesStep, ask, same, asks]
        congr 1
        by_cases here : i = j
        · subst here
          rw [Function.update_self, Function.update_self]
          rfl
        · rw [Function.update_of_ne here, Function.update_of_ne here]
          rfl

/-- A write request is one on the node that it reaches, whatever becomes of the copy. -/
theorem networkWrite_cases (i : ι) (env : CommitEnv) (transaction : TransactionT) (delivery : Delivery) :
    ∃ status, ∀ k, Forgets (nodesStep (nodes s) (.write i { env with buffTrans := status } transaction) k)
      (nodes (networkWrite codecs whoIs s i env transaction delivery) k) := by
  cases called : call codecs whoIs codecs.transaction s i (s i).table.lastslave .rBuffTrans
      (numbered env (s i).table transaction true) delivery env.now with
  | mk outcome after =>
    obtain ⟨status, data⟩ := outcome
    refine ⟨status, fun k => ?_⟩
    simp only [networkWrite, called, nodesStep]
    split
    · rw [nodes_update]
      by_cases here : k = i
      · subst here
        rw [Function.update_self, Function.update_self]
        exact Forgets.refl _
      · rw [Function.update_of_ne here, Function.update_of_ne here]
        exact forgets_call called k
    · rw [nodes_update]
      exact Forgets.refl _

/-- A round of `HostUpdate` changes what others know of the node. -/
theorem forgets_networkIntimate (i : ι) (round : ℕ) (now : UInt64) (delivery : Delivery) (k : ι) :
    Forgets (nodes s k) (nodes (networkIntimate codecs whoIs s i round now delivery) k) := by
  rw [networkIntimate]
  split
  · next state address rest _ =>
    cases called : call codecs whoIs codecs.state s i address .rSetInfo state delivery now with
    | mk outcome after =>
      refine (forgets_call called k).trans (forgets_update ?_ k)
      exact Forgets.refl _
  · exact Forgets.refl _

theorem forgets_networkRegister (i : ι) (now : UInt64) (delivery : Delivery) (k : ι) :
    Forgets (nodes s k) (nodes (networkRegister codecs whoIs s i now delivery) k) := by
  rw [networkRegister]
  split
  · next registering _ =>
    cases called : call codecs whoIs codecs.state s i registering.newmaster .rRegister registering.state delivery now with
    | mk outcome after =>
      refine (forgets_call called k).trans (forgets_update ?_ k)
      exact Forgets.refl _
  · exact Forgets.refl _

theorem Host.forgets_registered (host : Host) : Forgets host.toNode host.registered.toNode := by
  rw [Host.registered]
  split
  · exact ⟨rfl, rfl, rfl, rfl, fun _ member => member⟩
  · exact Forgets.refl _
  · exact Forgets.refl _

theorem Host.elect_toNode (i : ι) (cutoff now : UInt64) :
    nodes (Function.update s i ((s i).elect cutoff now)) = nodesStep (nodes s) (.masterUpdate i cutoff []) := by
  rw [nodes_update, Host.elect, nodesStep, nodes]
  split
  · exact Function.update_eq_self ..
  · rfl

theorem networkStep_post {i : ι} {now : UInt64} {r : HttpRequest} {wild : Host} (readable : r.Readable) :
    networkStep codecs whoIs s (.post i now r wild) = Function.update s i (remoteAnswer codecs now (s i) r).2 := by
  rw [networkStep, remoteEndpoint_of_readable readable]
  rfl

/-- Whatever happens on the network, the nodes do nothing or one of their own steps, and forget something. -/
theorem networkStep_cases (faithful : codecs.transList.Faithful) {label : NetworkStep ι}
    (disciplined : NetworkDisciplined s label) :
    (∀ k, Forgets (nodes s k) (nodes (networkStep codecs whoIs s label) k)) ∨
    ∃ own, Disciplined (nodes s) own ∧
      ∀ k, Forgets (nodesStep (nodes s) own k) (nodes (networkStep codecs whoIs s label) k) := by
  cases label with
  | write i env transaction delivery =>
    obtain ⟨status, forgets⟩ := @networkWrite_cases _ _ codecs whoIs s i env transaction delivery
    exact .inr ⟨.write i { env with buffTrans := status } transaction, disciplined, forgets⟩
  | pull i limit sent answered delivery =>
    rcases @pull_cases _ _ codecs whoIs s faithful i limit sent answered delivery with forgets | ⟨j, asks⟩
    · exact .inl forgets
    · refine .inr ⟨.ask i j limit sent answered, trivial, fun k => ?_⟩
      rw [asks]
      exact Forgets.refl _
  | next i env =>
    refine .inr ⟨.next i env, disciplined, fun k => ?_⟩
    rw [networkStep, nodes_update]
    exact Forgets.refl _
  | drain i env =>
    refine .inl (forgets_update ((keepsLog_drain (s i).toNode env).forgets ?_))
    rw [drain_eq]
  | hostUpdate i now => exact .inl (forgets_update (Forgets.refl _))
  | intimate i round now delivery => exact .inl (forgets_networkIntimate i round now delivery)
  | elect i cutoff now =>
    refine .inr ⟨.masterUpdate i cutoff [], disciplined, fun k => ?_⟩
    rw [networkStep, Host.elect_toNode]
    exact Forgets.refl _
  | register i now delivery => exact .inl (forgets_networkRegister i now delivery)
  | registered i => exact .inl (forgets_update (s i).forgets_registered)
  | restart i isMaster master =>
    refine .inr ⟨.restart i isMaster master, disciplined, fun k => ?_⟩
    rw [networkStep, nodes_update]
    exact Forgets.refl _
  | ready i => exact .inl (forgets_update (Forgets.refl _))
  | post i now r wild =>
    refine .inl fun k => ?_
    rw [networkStep_post disciplined]
    exact forgets_update (forgets_remoteAnswer r) k

/-- Nodes that are led are led after whatever happens on the network, if what they do themselves is disciplined. -/
theorem Led.networkStep (faithful : codecs.transList.Faithful) (led : Led base (nodes s)) {label : NetworkStep ι}
    (disciplined : NetworkDisciplined s label) : Led base (nodes (networkStep codecs whoIs s label)) := by
  rcases networkStep_cases faithful disciplined with forgets | ⟨own, isDisciplined, forgets⟩
  · exact led.forgets forgets
  · exact (led.step isDisciplined).forgets forgets

end Network

theorem led_networkRun [DecidableEq ι] {codecs : Codecs} {whoIs : Bytes → Option ι}
    (faithful : codecs.transList.Faithful) {start : ι → Host} (led : Led base (nodes start))
    {labels : List (NetworkStep ι)}
    (disciplined : Run.Guarded (networkStep codecs whoIs) NetworkDisciplined start labels) (n : ℕ) :
    Led base (nodes (Run.final (networkStep codecs whoIs) start (labels.take n))) :=
  @Run.invariant_of_guarded _ _ (networkStep codecs whoIs) (fun s => Led base (nodes s)) NetworkDisciplined
    (fun _ _ led disciplined => led.networkStep faithful disciplined) start led labels disciplined n

/-- Whatever is lost on the network, whoever is ready and knows the secret, and whatever that can be read anybody
posts to anyone in between: as long as nodes write, commit, elect themselves and restart with discipline, there is one master at most,
every log is a beginning of the master's, of two logs one is a beginning of the other, and every node's data is its
log. -/
theorem network_keeps_one_log [DecidableEq ι] {codecs : Codecs} {whoIs : Bytes → Option ι}
    (faithful : codecs.transList.Faithful) {start : ι → Host} (led : Led base (nodes start))
    {labels : List (NetworkStep ι)}
    (disciplined : Run.Guarded (networkStep codecs whoIs) NetworkDisciplined start labels) (n : ℕ) :
    let s := Run.final (networkStep codecs whoIs) start (labels.take n)
    (∀ i j, (s i).table.isMaster = true → (s j).table.isMaster = true → i = j) ∧
    (∀ m i, (s m).table.isMaster = true → LogPrefix (s i).table (s m).table) ∧
    (∀ i j, LogPrefix (s i).table (s j).table ∨ LogPrefix (s j).table (s i).table) ∧
    ∀ i, Replayed base (s i).table := by
  intro s
  have reached : Led base (nodes s) := led_networkRun faithful led disciplined n
  refine ⟨reached.one, fun m i isMaster => reached.logPrefix ?_, fun i j => ?_, fun i => (reached.sound i).data⟩
  · exact reached.logcounter_le_master isMaster i
  · rcases Nat.le_total (s i).table.logcounter (s j).table.logcounter with shorter | longer
    · exact .inl (reached.logPrefix shorter)
    · exact .inr (reached.logPrefix longer)

end Led

section Outsider

variable {ι : Type} [DecidableEq ι] {codecs : Codecs} {whoIs : Bytes → Option ι} {s : ι → Host}

theorem secret_respond {M : Type} {codec : Codec M} {action : Host → M → Except Exn M × Host} {host : Host}
    (kept : ∀ data, (action host data).2.sharedSecret = host.sharedSecret) (content : Bytes) :
    (respond codec action host content).2.sharedSecret = host.sharedSecret := by
  rw [respond]
  split
  · rfl
  · rfl
  · exact kept _

theorem secret_remoteService (now : UInt64) (cmd : RemoteCmdTypeE) (host : Host) (content : Bytes) :
    (remoteService codecs now cmd host content).2.sharedSecret = host.sharedSecret := by
  cases cmd with
  | rNoAction => rfl
  | rRegister =>
    refine secret_respond (fun data => ?_) content
    simp only [Host.register]
    split <;> rfl
  | rAddHost =>
    refine secret_respond (fun data => ?_) content
    rw [Host.addHost]
    split <;> rfl
  | rReadOne | rTransLog | rSetInfo | rBuffTrans => exact secret_respond (fun _ => rfl) content

theorem secret_remoteAnswer (now : UInt64) (host : Host) (r : HttpRequest) :
    (remoteAnswer codecs now host r).2.sharedSecret = host.sharedSecret := by
  rcases remoteAnswer_snd r with same | ⟨isProto, same⟩
  · rw [same]
  rw [same, remoteOutput]
  split
  · rfl
  split
  · rfl
  split
  · rfl
  split
  · rfl
  exact secret_remoteService now _ host r.content

/-- Every node has the secret that it had. -/
def SameSecrets (s s' : ι → Host) : Prop := ∀ k, (s' k).sharedSecret = (s k).sharedSecret

omit [DecidableEq ι] in
theorem SameSecrets.refl (s : ι → Host) : SameSecrets s s := fun _ => rfl

theorem SameSecrets.update {s s' : ι → Host} (same : SameSecrets s s') {i : ι} {host : Host}
    (kept : host.sharedSecret = (s i).sharedSecret) : SameSecrets s (Function.update s' i host) := by
  intro k
  by_cases here : k = i
  · subst here
    rwa [Function.update_self]
  · rw [Function.update_of_ne here]
    exact same k

theorem secret_call {M : Type} {codec : Codec M} {i : ι} {address : Bytes} {cmd : RemoteCmdTypeE} {msg : M}
    {delivery : Delivery} {now : UInt64} {outcome : Bool × M} {after : ι → Host}
    (called : call codecs whoIs codec s i address cmd msg delivery now = (outcome, after)) : SameSecrets s after := by
  rw [call, deliver] at called
  cases called
  split
  · exact SameSecrets.refl s
  · cases delivery with
    | lost => exact SameSecrets.refl s
    | answerLost | answered => exact (SameSecrets.refl s).update (secret_remoteAnswer now _ _)

/-- The secret of a node stays as it is configured. -/
theorem secret_networkStep {label : NetworkStep ι} (readable : label.Readable) :
    SameSecrets s (networkStep codecs whoIs s label) := by
  have kept := SameSecrets.refl s
  cases label with
  | write i env transaction delivery =>
    cases called : call codecs whoIs codecs.transaction s i (s i).table.lastslave .rBuffTrans
        (numbered env (s i).table transaction true) delivery env.now with
    | mk outcome after =>
      simp only [networkStep, networkWrite, called]
      split
      · exact (secret_call called).update rfl
      · exact kept.update rfl
  | pull i limit sent answered delivery =>
    cases called : call codecs whoIs codecs.transList s i (s i).table.master .rTransLog
        (transLogRequest (s i).table limit sent) delivery answered with
    | mk outcome after =>
      simp only [networkStep, called]
      exact (secret_call called).update (secret_call called i)
  | intimate i round now delivery =>
    rw [networkStep, networkIntimate]
    split
    · next state address rest _ =>
      cases called : call codecs whoIs codecs.state s i address .rSetInfo state delivery now with
      | mk outcome after => exact (secret_call called).update (secret_call called i)
    · exact kept
  | register i now delivery =>
    rw [networkStep, networkRegister]
    split
    · next registering _ =>
      cases called : call codecs whoIs codecs.state s i registering.newmaster .rRegister registering.state delivery
          now with
      | mk outcome after => exact (secret_call called).update (secret_call called i)
    · exact kept
  | elect i cutoff now =>
    refine kept.update ?_
    rw [Host.elect]
    split <;> rfl
  | registered i =>
    refine kept.update ?_
    rw [Host.registered]
    split <;> rfl
  | post i now r wild =>
    rw [networkStep_post readable]
    exact kept.update (secret_remoteAnswer now _ _)
  | next i env | drain i env | hostUpdate i now | restart i isMaster master | ready i => exact kept.update rfl

/-- A post by somebody who does not know the secret of the node. -/
def fromOutsider (secret : ι → Bytes) : NetworkStep ι → Bool
  | .post i _ r _ => !sharedSecretOK r (secret i)
  | _ => false

theorem networkStep_outsider {secret : ι → Bytes} (configured : ∀ i, (s i).sharedSecret = secret i)
    {label : NetworkStep ι} (readable : label.Readable) (outsider : fromOutsider secret label = true) :
    networkStep codecs whoIs s label = s := by
  cases label with
  | post i now r wild =>
    have refused : sharedSecretOK r (s i).sharedSecret = false := by simpa [fromOutsider, configured] using outsider
    rw [networkStep_post readable, remoteAnswer_outsider refused]
    exact Function.update_eq_self ..
  | _ => contradiction

/-- What those post who do not know the secret could as well not have happened, as long as it can be read: the nodes
end up the same without it. -/
theorem outsiders_change_nothing {secret : ι → Bytes} (configured : ∀ i, (s i).sharedSecret = secret i)
    {labels : List (NetworkStep ι)} (readable : ∀ label ∈ labels, label.Readable) :
    Run.final (networkStep codecs whoIs) s labels =
      Run.final (networkStep codecs whoIs) s (labels.filter fun label => !fromOutsider secret label) := by
  induction labels generalizing s with
  | nil => rfl
  | cons label rest ih =>
    have readableRest : ∀ label ∈ rest, label.Readable := fun _ member => readable _ (List.mem_cons_of_mem _ member)
    have readableLabel : label.Readable := readable label (List.mem_cons_self ..)
    cases outsider : fromOutsider secret label with
    | true =>
      rw [List.filter_cons_of_neg (by simp [outsider])]
      change Run.final _ (networkStep codecs whoIs s label) rest = _
      rw [networkStep_outsider configured readableLabel outsider]
      exact ih configured readableRest
    | false =>
      rw [List.filter_cons_of_pos (by simp [outsider])]
      exact ih (fun i => (secret_networkStep readableLabel i).trans (configured i)) readableRest

end Outsider

/-- A master and its slave, on empty stores. -/
def hostPair (isMaster : Bool) : Host where
  toNode := { freshPair isMaster with
    table := { (freshPair isMaster).table with master := if isMaster then [] else ascii "a" } }
  sharedSecret := ascii "s"
  isReady := true

def pairAddress (address : Bytes) : Option Bool :=
  if address = ascii "a" then some true else if address = ascii "b" then some false else none

/-- What the slave asks, and what it is answered. -/
def pullRequest : TransListT := { lastid := 1, limit := 10, ts := 6, endpoint := ascii "b" }

def pullAnswer : TransListT :=
  { lastid := 2, trans := [{ onePut with id := 2, ts := 5 }], currid := 2, ts := 6, endpoint := ascii "b" }

def pullRequestText : Bytes := [8, 1, 16, 10, 40, 6, 50, 1] ++ ascii "b"

def pullAnswerText : Bytes :=
  [8, 2, 26, 13, 8, 2, 18, 7, 10, 1] ++ ascii "x" ++ [18, 2, 8, 2, 24, 5, 32, 2, 40, 6, 50, 1] ++ ascii "b"

def pullCodec : Codec TransListT := .ofTable [(pullRequest, pullRequestText), (pullAnswer, pullAnswerText)]

theorem faithful_pullCodec : pullCodec.Faithful := Codec.faithful_ofTable (by decide) (by decide)

/-- Serialising and parsing of a message with nothing in it. -/
def blankCodec {M : Type} [Inhabited M] : Codec M where
  serialize _ := []
  parse text := (text.isEmpty, default)

def pairCodecs : Codecs where
  state := blankCodec
  transaction := blankCodec
  transList := pullCodec
  remote := blankCodec

/-- A post that is no transaction, a write, a pull whose answer gets lost, and one that is answered. -/
def lossyPull : List (NetworkStep Bool) :=
  [.post false 4 (protoPost RemoteCmdTypeE.rBuffTrans.number (ascii "s") (ascii "AAAA")) (hostPair false),
    .write true { now := 5 } onePut .lost, .pull false 10 6 6 .answerLost, .pull false 10 6 6 .answered, .next false { now := 7 }]

theorem led_hostPair : Led freshNode.maindb (nodes hostPair) :=
  led_freshPair.forgets fun _ => ⟨rfl, rfl, rfl, rfl, fun _ member => member⟩

theorem network_keeps_one_log_lossyPull :
    let s := Run.final (networkStep pairCodecs pairAddress) hostPair (lossyPull.take 5)
    (s false).table.logcounter = 2 ∧ LogPrefix (s false).table (s true).table := by
  have offLog : ItemsOffLog onePut.item := by
    intro item member
    obtain rfl := List.mem_singleton.mp member
    decide
  have disciplined : Run.Guarded (networkStep pairCodecs pairAddress) NetworkDisciplined hostPair lossyPull := by
    refine Run.guarded_cons.mpr ⟨readable_protoPost .., ?_⟩
    refine Run.guarded_cons.mpr ⟨⟨offLog, by decide +kernel, .inr ⟨rfl, rfl, fun uses => ?_⟩⟩, ?_⟩
    · exact absurd uses (by decide +kernel)
    refine Run.guarded_cons.mpr ⟨trivial, Run.guarded_cons.mpr ⟨trivial, ?_⟩⟩
    refine Run.guarded_cons.mpr ⟨⟨by decide +kernel, fun record _ => .inr ⟨rfl, rfl, fun uses => ?_⟩⟩, ?_⟩
    · exact absurd uses (by decide +kernel)
    exact fun i label here => by simp at here
  refine ⟨by decide +kernel, ?_⟩
  exact (network_keeps_one_log faithful_pullCodec led_hostPair disciplined 5).2.1 true false (by decide +kernel)

/-- Somebody asks the master for its log, without the secret. -/
def strangerAsks : NetworkStep Bool :=
  .post true 4 (protoPost RemoteCmdTypeE.rTransLog.number (ascii "t") (b64Encode pullRequestText)) (hostPair true)

theorem outsiders_change_nothing_strangerAsks :
    Run.final (networkStep pairCodecs pairAddress) hostPair (strangerAsks :: lossyPull) =
      Run.final (networkStep pairCodecs pairAddress) hostPair lossyPull := by
  have readable : ∀ label ∈ strangerAsks :: lossyPull, label.Readable := by
    simp [strangerAsks, lossyPull, NetworkStep.Readable]
  exact (@outsiders_change_nothing Bool _ pairCodecs pairAddress hostPair (fun _ => ascii "s") (fun _ => rfl)
    _ readable).trans rfl

end Identt.Hrpc
