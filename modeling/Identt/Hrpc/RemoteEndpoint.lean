import Identt.Hrpc.Forwarding
import Identt.Hrpc.HostUpdate
import Identt.Hrpc.LogAgreement

/-! # What a node takes from any other (`HrpcRemoteEndpointService`)

Six commands come in under one address, behind a secret that all nodes share. None of them writes the log or the
data of the node that gets it, and every error is answered with the same text.
-/

namespace Identt.Hrpc

open Store StoreTrans Query

/-- How the messages of the commands are serialised. -/
structure Codecs where
  state : Codec StateT
  transaction : Codec TransactionT
  transList : Codec TransListT
  remote : Codec RemoteT

/-- The attempts of a slave to register with the node that it elected, and whether the last one succeeded. -/
structure Registering where
  newmaster : Bytes
  state : StateT
  retries : ℕ := 0
  status : Option Bool := none

/-- A node behind its endpoint, with the rounds of `HostUpdate` that it is in: the message, and who is still to be
told. -/
structure Host extends Node where
  sharedSecret : Bytes
  isReady : Bool := false
  intimating : List (StateT × List Bytes) := []
  registering : Option Registering := none

/-- The beginning of a round of `HostUpdate`. -/
def Host.hostUpdate (host : Host) (now : UInt64) : Host :=
  { host with intimating := host.intimating ++ [(getHosts host.table now, host.table.remotes.map Prod.fst)] }

/-- `R_REGISTER`. -/
def Host.register (now : UInt64) (host : Host) (data : StateT) : Except Exn StateT × Host :=
  -- update remote in list
  let host := if host.table.isMaster then
      { host with table := addHost host.table data.thisurl data.logcounter data.ts }.hostUpdate now
    else host
  (.ok (getHosts host.table now), host)

/-- `R_READONE`. -/
def Host.readOne (host : Host) (data : TransactionT) : Except Exn TransactionT × Host :=
  (.ok (StoreTrans.readOne host.table data), host)

/-- `R_TRANSLOG`. -/
def Host.transLog (now : UInt64) (host : Host) (data : TransListT) : Except Exn TransListT × Host :=
  let (answer, table) := Hrpc.transLog host.table data now
  (answer, { host with table := table })

/-- `R_SETINFO`. -/
def Host.setInfo (now : UInt64) (host : Host) (data : StateT) : Except Exn StateT × Host :=
  let (answer, table) := Hrpc.setInfo host.table data now
  (.ok answer, { host with table := table })

/-- `R_ADDHOST`. -/
def Host.addHost (host : Host) (data : RemoteT) : Except Exn RemoteT × Host :=
  if host.table.isMaster then (.error (.badData "Host addition is slave only"), host)
  else (.ok {}, { host with table := Hrpc.addHost host.table data.address data.logcounter data.updatedAt })

/-- `R_BUFFTRANS`. -/
def Host.buffTrans (host : Host) (data : TransactionT) : Except Exn TransactionT × Host :=
  let (answer, slave) := Hrpc.buffTrans host.toSlave data
  (answer, { host with toNode := { host.toNode with toSlave := slave } })

section Endpoint

variable {M : Type}

/-- A case of the switch: the message that comes in, and the one that goes out. -/
def respond (codec : Codec M) (action : Host → M → Except Exn M × Host) (host : Host) (content : Bytes) :
    Except Exn Bytes × Host :=
  match (b64Decode content).map codec.parse with
  | none => (.error (b64Failure content), host)
  | some (false, _) => (.error (.badData "Bad Protobuf Format"), host)
  | some (true, data) =>
    let (answer, host) := action host data
    (answer.map codec.serialize, host)

def remoteService (codecs : Codecs) (now : UInt64) : RemoteCmdTypeE → Host → Bytes → Except Exn Bytes × Host
  | .rRegister => respond codecs.state (Host.register now)
  | .rReadOne => respond codecs.transaction Host.readOne
  | .rTransLog => respond codecs.transList (Host.transLog now)
  | .rSetInfo => respond codecs.state (Host.setInfo now)
  | .rAddHost => respond codecs.remote Host.addHost
  | .rBuffTrans => respond codecs.transaction Host.buffTrans
  | .rNoAction => fun host _ => (.error (.badData "Service Name unknown or unimplemented"), host)

/-- The cases of the switch; every other number is no command. -/
def remoteCmd (number : ℤ) : RemoteCmdTypeE :=
  ([RemoteCmdTypeE.rRegister, .rReadOne, .rTransLog, .rSetInfo, .rAddHost, .rBuffTrans].find?
    (·.number = number)).getD .rNoAction

/-- The body of the handler behind `ProtoRequest`. -/
def remoteOutput (codecs : Codecs) (now : UInt64) (host : Host) (r : HttpRequest) (isProto : Bool) :
    Except Exn Bytes × Host :=
  if isProto = false then (.error (.badData "Only Protobuf Supported"), host)
  else if sharedSecretOK r host.sharedSecret = false then (.error (.badData "Bad Shared Secret"), host)
  else
    match serviceName r with
    | .error e => (.error e, host)
    | .ok sname =>
      if host.isReady = false then (.error (.badData "System Not Ready"), host)
      else remoteService codecs now (remoteCmd sname) host r.content

/-- The answer and what it leaves; nothing if the handler dereferences `header.end()`. -/
def remoteEndpoint (codecs : Codecs) (now : UInt64) (host : Host) (r : HttpRequest) : Option (HttpResponse × Host) :=
  (protoRequest r).map fun isProto =>
    match remoteOutput codecs now host r isProto with
    | (.ok output, host) => (serviceOKAction r (b64Encode output), host)
    | (.error _, host) => (serviceErrAction r mUnknown (ascii "Unknown Error"), host)

/-- The answer to a post of a node, which has all the headers. -/
def remoteAnswer (codecs : Codecs) (now : UInt64) (host : Host) (r : HttpRequest) : HttpResponse × Host :=
  (remoteEndpoint codecs now host r).getD ({ statusCode := 0 }, host)

/-- What a call posts. -/
def posted (codec : Codec M) (sharedSecret : Bytes) (cmd : RemoteCmdTypeE) (msg : M) : HttpRequest :=
  protoPost cmd.number sharedSecret (b64Encode (codec.serialize msg))

end Endpoint

/-- The node has what it had, but for what it had yet to commit, which may be less. -/
structure Forgets (node node' : Node) : Prop where
  maindb : node'.table.maindb = node.table.maindb
  logdb : node'.table.logdb = node.table.logdb
  logcounter : node'.table.logcounter = node.table.logcounter
  isMaster : node'.table.isMaster = node.table.isMaster
  reply : ∀ record ∈ node'.reply, record ∈ node.reply

theorem Forgets.refl (node : Node) : Forgets node node := ⟨rfl, rfl, rfl, rfl, fun _ member => member⟩

theorem Forgets.trans {node node' node'' : Node} (first : Forgets node node') (second : Forgets node' node'') :
    Forgets node node'' where
  maindb := second.maindb.trans first.maindb
  logdb := second.logdb.trans first.logdb
  logcounter := second.logcounter.trans first.logcounter
  isMaster := second.isMaster.trans first.isMaster
  reply record member := first.reply record (second.reply record member)

theorem KeepsLog.forgets {node node' : Node} (kept : KeepsLog node node')
    (isMaster : node'.table.isMaster = node.table.isMaster) : Forgets node node' :=
  ⟨kept.maindb, kept.logdb, kept.logcounter, isMaster, fun _ member => kept.reply ▸ member⟩

theorem forgets_hear (node : Node) (message : HostMessage) :
    Forgets node { node with table := message.deliver node.table } :=
  (keepsLog_hear node message).forgets (deliver_isMaster node.table message)

section Endpoint

variable {codecs : Codecs} {now : UInt64} {host : Host}

theorem forgets_respond {M : Type} {codec : Codec M} {action : Host → M → Except Exn M × Host}
    (forgets : ∀ data, Forgets host.toNode (action host data).2.toNode) (content : Bytes) :
    Forgets host.toNode (respond codec action host content).2.toNode := by
  rw [respond]
  split
  · exact Forgets.refl _
  · exact Forgets.refl _
  · next data _ => exact forgets data

theorem Host.forgets_register (data : StateT) : Forgets host.toNode (host.register now data).2.toNode := by
  have heard := forgets_hear host.toNode (.register data)
  rw [HostMessage.deliver] at heard
  simp only [Host.register]
  split
  · next isMaster =>
    rw [if_pos isMaster] at heard
    exact heard
  · exact Forgets.refl _

theorem Host.forgets_transLog (data : TransListT) : Forgets host.toNode (host.transLog now data).2.toNode := by
  obtain ⟨lastslave, same⟩ := transLog_log host.table data now
  simp only [Host.transLog]
  rw [same]
  exact ⟨rfl, rfl, rfl, rfl, fun _ member => member⟩

theorem Host.forgets_addHost (data : RemoteT) : Forgets host.toNode (host.addHost data).2.toNode := by
  rw [Host.addHost]
  split
  · exact Forgets.refl _
  · exact ⟨rfl, rfl, rfl, rfl, fun _ member => member⟩

theorem Host.forgets_buffTrans (data : TransactionT) : Forgets host.toNode (host.buffTrans data).2.toNode :=
  (keepsLog_push host.toNode data).forgets (congrArg SharedTable.isMaster (buffTrans_table host.toSlave data))

/-- No command writes a log, changes a role or brings a transaction that is about to be committed. -/
theorem forgets_remoteService (cmd : RemoteCmdTypeE) (content : Bytes) :
    Forgets host.toNode (remoteService codecs now cmd host content).2.toNode := by
  cases cmd with
  | rNoAction => exact Forgets.refl _
  | rRegister => exact forgets_respond Host.forgets_register content
  | rReadOne => exact forgets_respond (fun _ => Forgets.refl _) content
  | rTransLog => exact forgets_respond Host.forgets_transLog content
  | rSetInfo => exact forgets_respond (fun data => forgets_hear host.toNode (.setInfo data)) content
  | rAddHost => exact forgets_respond Host.forgets_addHost content
  | rBuffTrans => exact forgets_respond Host.forgets_buffTrans content

theorem forgets_remoteOutput (r : HttpRequest) (isProto : Bool) :
    Forgets host.toNode (remoteOutput codecs now host r isProto).2.toNode := by
  rw [remoteOutput]
  split
  · exact Forgets.refl _
  split
  · exact Forgets.refl _
  split
  · exact Forgets.refl _
  split
  · exact Forgets.refl _
  exact forgets_remoteService _ _

theorem remoteEndpoint_of_readable {r : HttpRequest} (readable : r.Readable) :
    remoteEndpoint codecs now host r = some (remoteAnswer codecs now host r) := by
  obtain ⟨isProto, checked⟩ := Option.isSome_iff_exists.mp readable
  rw [remoteAnswer, remoteEndpoint, checked]
  rfl

/-- An answer leaves what the body of the handler leaves. -/
theorem remoteAnswer_snd (r : HttpRequest) : (remoteAnswer codecs now host r).2 = host ∨
    ∃ isProto, (remoteAnswer codecs now host r).2 = (remoteOutput codecs now host r isProto).2 := by
  rw [remoteAnswer, remoteEndpoint]
  cases protoRequest r with
  | none => exact .inl rfl
  | some isProto =>
    refine .inr ⟨isProto, ?_⟩
    rw [Option.map_some, Option.getD_some]
    split <;> simp [*]

theorem forgets_remoteAnswer (r : HttpRequest) : Forgets host.toNode (remoteAnswer codecs now host r).2.toNode := by
  rcases remoteAnswer_snd r with same | ⟨isProto, same⟩
  · rw [same]
    exact Forgets.refl _
  · rw [same]
    exact forgets_remoteOutput r isProto

/-- Who does not know the secret changes nothing. -/
theorem remoteAnswer_outsider {r : HttpRequest} (outsider : sharedSecretOK r host.sharedSecret = false) :
    (remoteAnswer codecs now host r).2 = host := by
  rcases remoteAnswer_snd r with same | ⟨isProto, same⟩
  · exact same
  · rw [same, remoteOutput, if_pos outsider]
    split <;> rfl

/-- Nor does anybody while the node is not ready. -/
theorem remoteAnswer_unready (unready : host.isReady = false) (r : HttpRequest) :
    (remoteAnswer codecs now host r).2 = host := by
  rcases remoteAnswer_snd r with same | ⟨isProto, same⟩
  · exact same
  · rw [same, remoteOutput]
    split
    · rfl
    split
    · rfl
    split <;> rfl

section Call

variable {M : Type} {codec : Codec M} {cmd : RemoteCmdTypeE} {action : Host → M → Except Exn M × Host}
  {sharedSecret : Bytes} {msg : M}

theorem remoteCmd_number (cmd : RemoteCmdTypeE) : remoteCmd cmd.number = cmd := by
  cases cmd <;> rfl

/-- The endpoint takes the post of a call for one of protobuf, and finds the command in it. -/
theorem remoteAnswer_posted : remoteAnswer codecs now host (posted codec sharedSecret cmd msg) =
    match remoteOutput codecs now host (posted codec sharedSecret cmd msg) true with
    | (.ok output, host) => ({ base64 := true, text := cString (b64Encode output) }, host)
    | (.error _, host) => ({ serviceError := some mUnknown, text := cString (ascii "Unknown Error") }, host) := by
  have isProto : protoRequest (posted codec sharedSecret cmd msg) = some true := protoRequest_protoPost ..
  rw [remoteAnswer, remoteEndpoint, isProto, Option.map_some, Option.getD_some]
  split <;> simp [posted, serviceOKAction, serviceErrAction]

theorem remoteOutput_posted : remoteOutput codecs now host (posted codec sharedSecret cmd msg) true =
    if sharedSecret ≠ host.sharedSecret then (.error (.badData "Bad Shared Secret"), host)
    else if host.isReady = false then (.error (.badData "System Not Ready"), host)
    else remoteService codecs now cmd host (b64Encode (codec.serialize msg)) := by
  rw [remoteOutput, posted, serviceName_remoteCmd, sharedSecretOK_protoPost]
  simp [remoteCmd_number, protoPost]

/-- What a call brings back. -/
theorem sendToRemote_remoteAnswer (isCmd : cmd ≠ .rNoAction) :
    sendToRemote codec sharedSecret cmd msg (fun r => (remoteAnswer codecs now host r).1) =
      match (remoteOutput codecs now host (posted codec sharedSecret cmd msg) true).1 with
      | .ok output => codec.parse output
      | .error _ => (false, msg) := by
  have answer := @remoteAnswer_posted codecs now host _ codec cmd sharedSecret msg
  rw [posted] at answer
  simp only [sendToRemote, if_neg isCmd, answer]
  rw [← posted]
  cases remoteOutput codecs now host (posted codec sharedSecret cmd msg) true with
  | mk result after =>
    cases result with
    | ok output => simp [received?, cString_of_ne_zero (b64Encode_ne_zero _), b64Decode_encode]
    | error e => simp

/-- Nothing parses as another message than the one that was serialised. -/
def Codec.Faithful (codec : Codec M) : Prop :=
  ∀ msg data, codec.parse (codec.serialize msg) = (true, data) → data = msg

/-- Serialising and parsing, as far as some messages go. -/
def Codec.ofTable [DecidableEq M] [Inhabited M] (entries : List (M × Bytes)) : Codec M where
  serialize msg := (entries.lookup msg).getD []
  parse text :=
    match entries.find? (fun entry => entry.2 = text) with
    | some entry => (true, entry.1)
    | none => (false, default)

theorem Codec.faithful_ofTable [DecidableEq M] [Inhabited M] {entries : List (M × Bytes)}
    (nodup : (entries.map Prod.snd).Nodup) (nonempty : [] ∉ entries.map Prod.snd) : (Codec.ofTable entries).Faithful := by
  intro msg data parsed
  simp only [ofTable] at parsed
  split at parsed
  · next entry found =>
    cases parsed
    have text : entry.2 = (entries.lookup msg).getD [] := by simpa using List.find?_some found
    have member := List.mem_of_find?_eq_some found
    cases known : entries.lookup msg with
    | none =>
      rw [known, Option.getD_none] at text
      exact (nonempty (text ▸ List.mem_map_of_mem member)).elim
    | some own =>
      rw [known, Option.getD_some] at text
      have same := List.inj_on_of_nodup_map nodup member (SharedMap.mem_of_lookup known) text
      rw [same]
  · cases parsed

/-- A call that succeeds comes back with what the action makes of the message, and leaves what it leaves. -/
theorem call_sound (faithful : codec.Faithful) (isCmd : cmd ≠ .rNoAction)
    (dispatch : remoteService codecs now cmd = respond codec action) {result : M}
    (got : sendToRemote codec sharedSecret cmd msg (fun r => (remoteAnswer codecs now host r).1) = (true, result)) :
    (action host msg).1 = .ok result ∧
      (remoteAnswer codecs now host (posted codec sharedSecret cmd msg)).2 = (action host msg).2 := by
  rw [sendToRemote_remoteAnswer isCmd] at got
  rw [remoteAnswer_posted]
  rw [remoteOutput_posted] at got ⊢
  split at got
  · next output answered =>
    split_ifs at answered with secret ready
    rw [if_neg secret, if_neg ready]
    simp only [dispatch, respond, b64Decode_encode, Option.map_some] at answered ⊢
    cases parsed : codec.parse (codec.serialize msg) with
    | mk status data =>
      cases status with
      | false =>
        rw [parsed] at answered
        contradiction
      | true =>
        obtain rfl := faithful msg data parsed
        rw [parsed] at answered
        cases acted : action host data with
        | mk answer after =>
          cases answer with
          | error e =>
            simp only [acted] at answered
            contradiction
          | ok answer =>
            simp only [acted] at answered
            cases answered
            rw [faithful answer result got]
            simp [acted, Except.map]
  · cases got

end Call

end Endpoint

end Identt.Hrpc
