import Identt.Hrpc.HrpcClient
import Identt.Hrpc.MasterRun

/-! # Requests that a slave forwards (`HrpcMasterEndpointService`)

A slave sends what it may not do itself to the master and gives its caller what comes back. Results
survive the trip. The code of an error does not: the endpoint reports `M_UNKNOWN` for every exception.
-/

namespace Identt.Hrpc

open Store Query

/-- The command that a request goes under. -/
def MasterRequest.serviceId : MasterRequest → MasterCmdTypeE
  | .requestToken _ => .mRequestToken
  | .submitToken _ => .mSubmitToken
  | .getValidated3pid _ => .mGetValidated3pid
  | .bind3pid _ => .mBind3pid
  | .storeInvite _ => .mStoreInvite
  | .pending _ => .mPending
  | .getAccessKey _ => .mGetAccessKey
  | .setBlobData _ => .mSetBlobData

/-- The cases of the switch, for the commands that may write. -/
def masterCmd (number : ℤ) : Option MasterCmdTypeE :=
  [MasterCmdTypeE.mRequestToken, .mSubmitToken, .mGetValidated3pid, .mBind3pid, .mStoreInvite, .mPending,
    .mGetAccessKey, .mSetBlobData].find? (·.number = number)

/-- The request that a post carries, if it gets through the checks of the endpoint; nothing if the first of them
dereferences `header.end()`. -/
def accepted (codec : MasterCmdTypeE → Codec MasterRequest) (sharedSecret : Bytes) (isReady : Bool)
    (st : SharedTable) (r : HttpRequest) : Option (Except Exn MasterRequest) :=
  (protoRequest r).map fun isProto => do
    require (isProto = true) (.badData "Only Protobuf Supported")
    require (sharedSecretOK r sharedSecret = true) (.badData "Bad Shared Secret")
    let sname ← serviceName r
    require (isReady = true) (.badData "System Not Ready")
    require (st.isMaster = true) (.badData "System Not Master")
    match masterCmd sname with
    | none => throw (.badData "Service Name unknown or unimplemented")
    | some cmd =>
      match (b64Decode r.content).map (codec cmd).parse with
      | none => throw (b64Failure r.content)
      | some (false, _) => throw (.badData "Bad Protobuf Format")
      | some (true, data) => return data

/-- The code that an exception is reported with. The handler for `SydentException` works out the code, but
into a variable of its own that hides the one that is sent. -/
def reportedCode (_e : Exn) : ℕ := mUnknown

def masterEndpoint (codec : MasterCmdTypeE → Codec MasterRequest) (sharedSecret : Bytes) (isReady : Bool)
    (env : ActionEnv) (st : SharedTable) (r : HttpRequest) : Option (HttpResponse × SharedTable) :=
  (accepted codec sharedSecret isReady st r).map fun request =>
    match request with
    | .error e => (serviceErrAction r (reportedCode e) (what e), st)
    | .ok request =>
      match serve st request env with
      | (.ok data, st) => (serviceOKAction r (b64Encode ((codec request.serviceId).serialize data)), st)
      | (.error e, st) => (serviceErrAction r (reportedCode e) (what e), st)

/-- The answer of the endpoint to a post, if that is one that it can read. -/
def masterAnswer (codec : MasterCmdTypeE → Codec MasterRequest) (sharedSecret : Bytes) (isReady : Bool)
    (env : ActionEnv) (st : SharedTable) (r : HttpRequest) : HttpResponse × SharedTable :=
  (masterEndpoint codec sharedSecret isReady env st r).getD ({ statusCode := 0 }, st)

/-- What the caller on a slave gets, when the slave shares the secret of a master that is ready. -/
def forward (codec : MasterCmdTypeE → Codec MasterRequest) (sharedSecret : Bytes) (env : ActionEnv) (st : SharedTable)
    (request : MasterRequest) : Except ClientExn MasterRequest :=
  sendToMaster (codec request.serviceId) sharedSecret request.serviceId request fun r =>
    (masterAnswer codec sharedSecret true env st r).1

/-- The two outcomes of a request agree: the same result, or errors, and the same text and code where the
error is a `SydentException`. -/
structure SameOutcome (served : Except Exn MasterRequest) (forwarded : Except ClientExn MasterRequest) : Prop where
  result : ∀ reply, served = .ok reply → forwarded = .ok reply
  failure : ∀ e, served = .error e → ∃ e', forwarded = .error e'
  sydent : ∀ text ecode, served = .error (.sydent text ecode) → sydentErrorMin ≤ ecode → ecode ≤ sydentErrorMax →
    forwarded = .error (.sydent (what (.sydent text ecode)) ecode)

theorem masterCmd_number (request : MasterRequest) :
    masterCmd request.serviceId.number = some request.serviceId := by
  cases request <;> rfl

theorem serviceId_ne_noAction (request : MasterRequest) : request.serviceId ≠ .mNoAction := by
  cases request <;> exact nofun

theorem cString_what (e : Exn) : cString (what e) = what e := by
  cases e with
  | badJson => rfl
  | badData | badCode | initial | sydent | runtimeError | invalidArgument | outOfRange => exact cString_cString _

/-- The answer to a request is a message of the same kind. -/
theorem serve_serviceId {st : SharedTable} {request reply : MasterRequest} {env : ActionEnv}
    (answered : (serve st request env).1 = .ok reply) : reply.serviceId = request.serviceId := by
  rw [serve, runAction] at answered
  split at answered
  · next prepared counter ran =>
    have ofKind {α : Type} {kind : α → MasterRequest} {action : Prepared α} (isAction : action.map kind = prepared)
        (same : ∀ data, (kind data).serviceId = request.serviceId) : reply.serviceId = request.serviceId := by
      subst isAction
      have replied : ∃ db, (action.map kind).reply db = .ok reply := by
        rw [finish] at answered
        split at answered
        · exact ⟨_, answered⟩
        · split at answered
          · exact ⟨_, answered⟩
          · contradiction
      obtain ⟨db, replied⟩ := replied
      change (action.reply db).map kind = .ok reply at replied
      cases result : action.reply db with
      | error e =>
        rw [result] at replied
        contradiction
      | ok data =>
        rw [result] at replied
        cases replied
        exact same data
    have gives : ReadM.Gives (request.read st env) st.maincounter prepared counter := ran
    cases request with
    | requestToken | submitToken | getValidated3pid | bind3pid | storeInvite | pending | getAccessKey | setBlobData =>
      simp only [MasterRequest.read, ReadM.gives_bind, ReadM.gives_pure] at gives
      obtain ⟨action, _, _, isAction, _⟩ := gives
      exact ofKind isAction fun _ => rfl
  · contradiction

/-- What a node posts gets to the checks behind the first. -/
theorem accepted_protoPost (codec : MasterCmdTypeE → Codec MasterRequest) (sharedSecret : Bytes) (isReady : Bool)
    (st : SharedTable) (serviceId : ℕ) (secret content : Bytes) :
    ∃ result, accepted codec sharedSecret isReady st (protoPost serviceId secret content) = some result := by
  rw [accepted, protoRequest_protoPost, Option.map_some]
  exact ⟨_, rfl⟩

section Forward

variable {codec : MasterCmdTypeE → Codec MasterRequest} {wellFormed : MasterRequest → Prop}
  (lossless : ∀ msg, wellFormed msg →
    (codec msg.serviceId).parse ((codec msg.serviceId).serialize msg) = (true, msg))
  {sharedSecret : Bytes} {env : ActionEnv} {st : SharedTable} {request : MasterRequest}
include lossless

/-- What a slave posts is accepted as the request that it was. -/
theorem accepted_forward (isMaster : st.isMaster = true) (sends : wellFormed request) :
    accepted codec sharedSecret true st (protoPost request.serviceId.number sharedSecret
      (b64Encode ((codec request.serviceId).serialize request))) = some (.ok request) := by
  have content : (protoPost request.serviceId.number sharedSecret
      (b64Encode ((codec request.serviceId).serialize request))).content =
        b64Encode ((codec request.serviceId).serialize request) := rfl
  rw [accepted, protoRequest_protoPost, Option.map_some, serviceName_masterCmd, sharedSecretOK_protoPost]
  simp only [require, isMaster, content, decide_true, if_true, ok_bind, masterCmd_number, b64Decode_encode,
    Option.map_some, lossless request sends]
  rfl

/-- A result comes back as it is, and an error with its text and the code `M_UNKNOWN`. -/
theorem forward_eq (isMaster : st.isMaster = true) (sends : wellFormed request)
    (answers : ∀ reply, (serve st request env).1 = .ok reply → wellFormed reply) :
    forward codec sharedSecret env st request =
      (serve st request env).1.mapError fun e => .sydent (what e) mUnknown := by
  have takes : accepted codec sharedSecret true st (protoPost request.serviceId.number sharedSecret
      (b64Encode ((codec request.serviceId).serialize request))) = some (.ok request) :=
    accepted_forward lossless isMaster sends
  rw [forward, sendToMaster, if_neg (serviceId_ne_noAction request)]
  simp only [masterAnswer, masterEndpoint, takes, Option.map_some, Option.getD_some]
  cases served : serve st request env with
  | mk result after =>
    cases result with
    | ok reply =>
      have answered : (serve st request env).1 = .ok reply := by rw [served]
      have parsed := lossless reply (answers reply answered)
      rw [serve_serviceId answered] at parsed
      simp only [serviceOKAction, answered_masterCmd, received?, if_true, cString_of_ne_zero (b64Encode_ne_zero _),
        b64Decode_encode, Option.map_some, parsed]
      rfl
    | error e =>
      simp only [serviceErrAction, answered_masterCmd, reportedCode, cString_what]
      rfl

/-- A request that a slave forwards to a master that is ready has the outcome that it has on the master,
exactly if the action does not throw a `SydentException` with another code than `M_UNKNOWN`. -/
theorem forward_sameOutcome_iff (isMaster : st.isMaster = true) (sends : wellFormed request)
    (answers : ∀ reply, (serve st request env).1 = .ok reply → wellFormed reply) :
    SameOutcome (serve st request env).1 (forward codec sharedSecret env st request) ↔
      ∀ text ecode, (serve st request env).1 = .error (.sydent text ecode) → sydentErrorMin ≤ ecode →
        ecode ≤ sydentErrorMax → ecode = mUnknown := by
  rw [forward_eq lossless isMaster sends answers]
  constructor
  · intro same text ecode served low high
    have forwarded := same.sydent text ecode served low high
    rw [served] at forwarded
    cases forwarded
    rfl
  · intro unknown
    refine ⟨fun reply served => ?_, fun e served => ?_, fun text ecode served low high => ?_⟩
    · rw [served]
      rfl
    · rw [served]
      exact ⟨_, rfl⟩
    · rw [served, unknown text ecode served low high]
      rfl

end Forward

/-- A request with an address that is too short. -/
def shortEmail : MasterRequest := tokenRequest "a" "q" 1

/-- The serialised form of that request. -/
def shortEmailText : Bytes := [10, 8, 10, 1, 113, 16, 1, 26, 1, 97, 26, 5] ++ ascii "email"

/-- Serialising and parsing, as far as that request goes. -/
def shortEmailCodec (_cmd : MasterCmdTypeE) : Codec MasterRequest where
  serialize msg := if msg = shortEmail then shortEmailText else []
  parse text := if text = shortEmailText then (true, shortEmail) else (false, default)

def atNoon : ActionEnv := { currtime := 1000000, commit := { now := 1000000 } }

/-- The master reports `M_INVALID_EMAIL`, and the slave `M_UNKNOWN`. -/
theorem shortEmail_loses_code :
    (serve emptyMaster shortEmail atNoon).1 = .error (.sydent "Invalid Email" mInvalidEmail) ∧
    forward shortEmailCodec (ascii "s") atNoon emptyMaster shortEmail =
      .error (.sydent (ascii "Invalid Email") mUnknown) ∧
    ¬ SameOutcome (serve emptyMaster shortEmail atNoon).1
      (forward shortEmailCodec (ascii "s") atNoon emptyMaster shortEmail) := by
  have served : (serve emptyMaster shortEmail atNoon).1 = .error (.sydent "Invalid Email" mInvalidEmail) := by
    decide +kernel
  have forwarded : forward shortEmailCodec (ascii "s") atNoon emptyMaster shortEmail =
      .error (.sydent (ascii "Invalid Email") mUnknown) := by decide +kernel
  refine ⟨served, forwarded, fun same => ?_⟩
  have code := same.sydent _ _ served (by decide) (by decide)
  rw [forwarded] at code
  revert code
  decide

theorem forward_sameOutcome_iff_shortEmail :
    SameOutcome (serve emptyMaster shortEmail atNoon).1
        (forward shortEmailCodec (ascii "s") atNoon emptyMaster shortEmail) ↔
      ∀ text ecode, (serve emptyMaster shortEmail atNoon).1 = .error (.sydent text ecode) → sydentErrorMin ≤ ecode →
        ecode ≤ sydentErrorMax → ecode = mUnknown := by
  refine @forward_sameOutcome_iff shortEmailCodec (fun msg => msg = shortEmail) ?_ (ascii "s") atNoon emptyMaster
    shortEmail rfl rfl ?_
  · rintro msg rfl
    decide +kernel
  · intro reply answered
    have served : (serve emptyMaster shortEmail atNoon).1 = .error (.sydent "Invalid Email" mInvalidEmail) := by
      decide +kernel
    rw [served] at answered
    contradiction

end Identt.Hrpc
