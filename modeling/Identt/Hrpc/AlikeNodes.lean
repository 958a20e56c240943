import Identt.Hrpc.Failover
import Identt.Hrpc.MasterRun

/-! # What a node knows of others

The address of the master, the last slave and the reports of other nodes decide where a node sends things, but not
how it serves a request. So two nodes that differ in these alone serve alike, and what goes on between the nodes
besides the requests changes a master in these alone.
-/

namespace Identt.Hrpc

open Store StoreTrans Query

/-- A node without what it knows of others. -/
def bare (st : SharedTable) : SharedTable := { st with master := [], thisurl := [], lastslave := [], remotes := [] }

/-- Two nodes are the same but for what they know of others. -/
def Alike (st st' : SharedTable) : Prop := bare st = bare st'

section Alike

theorem putLog_bare (st : SharedTable) (key : Bytes) (value : Stored) :
    (bare st).putLog key value = bare (st.putLog key value) := by
  cases separate : st.logdb <;> simp [SharedTable.putLog, bare, separate]

theorem commitLog_bare (env : CommitEnv) (st : SharedTable) (transaction : TransactionT) (isMaster : Bool) :
    commitLog env (bare st) transaction isMaster =
      ((commitLog env st transaction isMaster).1, (commitLog env st transaction isMaster).2.1,
        bare (commitLog env st transaction isMaster).2.2) := by
  rw [commitLog, commitLog]
  split
  · rfl
  · cases env.logPut with
    | false => rfl
    | true => exact congrArg (fun st => (true, _, st)) (putLog_bare { st with logcounter := st.logcounter + 1 } _ _)

theorem commitData_bare (env : CommitEnv) (st : SharedTable) (transaction : TransactionT) :
    commitData env (bare st) transaction =
      ((commitData env st transaction).1, bare (commitData env st transaction).2) := by
  rw [commitData, commitData]
  split
  · rfl
  · split <;> rfl

theorem replicate_bare (env : CommitEnv) (st : SharedTable) (isMaster : Bool) :
    replicate env (bare st) isMaster = bare (replicate env st isMaster) := by
  rw [replicate, if_neg (fun sends => sends.2.2.1 rfl), replicate]
  split <;> rfl

/-- Committing does not depend on what a node knows of others. -/
theorem commit_bare (env : CommitEnv) (st : SharedTable) (transaction : TransactionT) (isMaster : Bool) :
    commit env (bare st) transaction isMaster =
      ((commit env st transaction isMaster).1, bare (commit env st transaction isMaster).2) := by
  rw [commit, commit]
  split
  · rfl
  · simp only [commitLog_bare, commitData_bare, replicate_bare]
    split
    · rfl
    · split
      · rfl
      · change (if (replicate env _ isMaster).lookupUsesLocal = true then _ else _) = _
        split <;> rfl

theorem finish_bare {α : Type} (env : CommitEnv) (st : SharedTable) (prepared : Prepared α) :
    finish env (bare st) prepared = ((finish env st prepared).1, bare (finish env st prepared).2) := by
  rw [finish, finish]
  cases prepared.trans with
  | none => rfl
  | some transaction =>
    simp only [commit_bare]
    cases commit env st transaction true with
    | mk status st' => cases status <;> rfl

theorem sendInvites_bare (st : SharedTable) (env : ActionEnv) (valsession : ValidationSessionT) (mxid : Bytes)
    (tokens : List InviteTokenT) (dupSet : List (Bytes × Bytes)) (invites : List InviteItemT)
    (transaction : TransactionT) : ThreePidService.sendInvites (bare st) env valsession mxid tokens dupSet invites transaction =
      ThreePidService.sendInvites st env valsession mxid tokens dupSet invites transaction := by
  induction tokens generalizing dupSet invites transaction with
  | nil => rfl
  | cons mytok rest ih =>
    rw [ThreePidService.sendInvites, ThreePidService.sendInvites]
    simp only [ih]
    rfl

/-- What a request reads is no part of that either. -/
theorem read_bare (request : MasterRequest) (st : SharedTable) (env : ActionEnv) :
    request.read (bare st) env = request.read st env := by
  cases request with
  | bind3pid data =>
    simp only [MasterRequest.read, ThreePidService.bind3pidAction, ThreePidService.bind3pidWith, sendInvites_bare]
    rfl
  | requestToken | submitToken | getValidated3pid | storeInvite | pending | getAccessKey | setBlobData => rfl

theorem serve_bare (st : SharedTable) (request : MasterRequest) (env : ActionEnv) :
    serve (bare st) request env = ((serve st request env).1, bare (serve st request env).2) := by
  rw [serve, read_bare, serve]
  cases ran : (request.read st env).run st.maincounter with
  | mk result counter =>
    have ran' : (request.read st env).run (bare st).maincounter = (result, counter) := ran
    rw [runAction, ran', runAction, ran]
    cases result with
    | error e => rfl
    | ok prepared => exact finish_bare env.commit { st with maincounter := counter } prepared

variable {st st' : SharedTable}

theorem Alike.field {α : Type} (alike : Alike st st') (f : SharedTable → α) : f (bare st) = f (bare st') :=
  congrArg f alike

theorem Alike.sound {base : DB} (alike : Alike st st') (sound : Sound base st) : Sound base st' := by
  have bareSound : Sound base (bare st) :=
    ⟨sound.logOf, sound.counter, sound.contiguous, sound.data, sound.separate⟩
  rw [show bare st = bare st' from alike] at bareSound
  exact ⟨bareSound.logOf, bareSound.counter, bareSound.contiguous, bareSound.data, bareSound.separate⟩

/-- Nodes that are alike serve a request alike. -/
theorem Alike.serve (alike : Alike st st') (request : MasterRequest) (env : ActionEnv) :
    (serve st request env).1 = (serve st' request env).1 ∧
      Alike (serve st request env).2 (serve st' request env).2 := by
  have same := alike.field fun st => Hrpc.serve st request env
  rw [serve_bare, serve_bare] at same
  exact Prod.mk.inj same

end Alike

section Background

variable {ι : Type} [DecidableEq ι] {base : DB} {s : ι → Node} {m : ι}

/-- What goes on besides the requests of clients, while the master does not stop. -/
def Background (m : ι) : NodesStep ι → Prop
  | .write .. => False
  | .restart i _ _ => i ≠ m
  | _ => True

theorem alike_update {i k : ι} {node : Node} (alike : Alike (s i).table node.table) :
    Alike (s k).table (Function.update s i node k).table := by
  by_cases here : k = i
  · subst here
    rwa [Function.update_self]
  · rw [Function.update_of_ne here]
    rfl

/-- Nothing of that changes the master but in what it knows of others. -/
theorem Led.alike_background (led : Led base s) (isMaster : (s m).table.isMaster = true) {label : NodesStep ι}
    (background : Background m label) : Alike (s m).table (nodesStep s label m).table := by
  cases label with
  | write => exact background.elim
  | ask i j limit sent answered =>
    obtain ⟨lastslave, reply, _, same⟩ := ask_cases s i j limit sent answered (led.wf j).log
    have asked (k : ι) : Alike (s k).table (noted s j lastslave k).table := alike_update rfl
    rw [nodesStep, same]
    exact (asked m).trans (alike_update rfl)
  | next i env =>
    by_cases here : i = m
    · subst here
      rw [nodesStep, Function.update_self]
      rcases (s i).next_cases env with ⟨rest, _, same⟩ | ⟨record, rest, member, _, isNew, _, _, _⟩
      · rw [same]
        rfl
      · -- nobody has a transaction that the master does not have
        have bound := led.ahead i isMaster (.inr i) record.id record
          ⟨((led.wf i).replyOff record member).1, member, rfl⟩
        omega
    · rw [nodesStep, Function.update_of_ne (Ne.symm here)]
      rfl
  | push i data =>
    apply alike_update
    rw [buffTrans_table]
    rfl
  | drain i env =>
    apply alike_update
    rw [drain_eq]
    rfl
  | hear i message =>
    apply alike_update
    cases message with
    | setInfo data =>
      rw [HostMessage.deliver, setHosts]
      split <;> rfl
    | register data | addHost data =>
      rw [HostMessage.deliver]
      split <;> rfl
  | masterUpdate i cutoff tries =>
    rw [nodesStep]
    split
    · rfl
    · next slave =>
      have other : m ≠ i := by
        rintro rfl
        exact slave isMaster
      rw [Function.update_of_ne other]
      rfl
  | restart i =>
    rw [nodesStep, Function.update_of_ne (Ne.symm background)]
    rfl

theorem workServerInit_lookupUsesLocal {st st' : SharedTable} (init : workServerInit st = .ok st') :
    st'.lookupUsesLocal = st.lookupUsesLocal := by
  obtain ⟨_, _, init⟩ := bind_eq_ok.mp init
  obtain ⟨_, _, init⟩ := bind_eq_ok.mp init
  obtain ⟨_, _, init⟩ := bind_eq_ok.mp init
  cases init
  rfl

theorem usesLocal_update {i k : ι} {node : Node} (kept : node.table.lookupUsesLocal = (s i).table.lookupUsesLocal) :
    (Function.update s i node k).table.lookupUsesLocal = (s k).table.lookupUsesLocal := by
  by_cases here : k = i
  · subst here
    rwa [Function.update_self]
  · rw [Function.update_of_ne here]

/-- No node changes how it looks up. -/
theorem Led.lookupUsesLocal_step (led : Led base s) (label : NodesStep ι) (k : ι) :
    (nodesStep s label k).table.lookupUsesLocal = (s k).table.lookupUsesLocal := by
  cases label with
  | write i env transaction =>
    apply usesLocal_update
    rw [Node.write]
    split
    · exact commit_lookupUsesLocal env (s i).table transaction true
    · rfl
  | ask i j limit sent answered =>
    obtain ⟨lastslave, reply, _, same⟩ := ask_cases s i j limit sent answered (led.wf j).log
    have asked (k : ι) : (noted s j lastslave k).table.lookupUsesLocal = (s k).table.lookupUsesLocal :=
      usesLocal_update rfl
    rw [nodesStep, same, ← asked]
    exact usesLocal_update rfl
  | next i env =>
    apply usesLocal_update
    rcases (s i).next_cases env with ⟨rest, _, same⟩ | ⟨record, rest, _, _, _, _, _, same⟩
    · rw [same]
    · rw [same]
      exact commit_lookupUsesLocal env (s i).table record false
  | push i data =>
    apply usesLocal_update
    rw [buffTrans_table]
  | drain i env =>
    apply usesLocal_update
    rw [drain_eq]
  | hear i message =>
    apply usesLocal_update
    cases message with
    | setInfo data =>
      rw [HostMessage.deliver, setHosts]
      split <;> rfl
    | register data | addHost data =>
      rw [HostMessage.deliver]
      split <;> rfl
  | masterUpdate i cutoff tries =>
    rw [nodesStep]
    split
    · rfl
    · apply usesLocal_update
      simp only [masterUpdate]
      split_ifs <;> rfl
  | restart i isMaster master =>
    apply usesLocal_update
    change (Identt.restart (s i).table).lookupUsesLocal = _
    rw [Identt.restart]
    split
    · next init =>
      have kept := workServerInit_lookupUsesLocal init
      exact kept
    · rfl

end Background

end Identt.Hrpc
