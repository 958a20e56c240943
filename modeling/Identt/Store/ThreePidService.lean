import Identt.Store.Service

/-! # Using a validated session (`ThreePidService`)

A caller that knows a validated session's number and secret can ask what it validated, and bind the
address to a Matrix user: in the association of this server, in the one published under this
server's name, and in the notification of the invites that waited for the address.
-/

namespace Identt.Store

open Query

namespace ThreePidService

/-- The session behind a number and a secret, if it was validated. -/
def validatedSession (st : SharedTable) (env : ActionEnv) (sid : ℕ) (clientSecret : Bytes) :
    Except Exn ValidationSessionT := do
  let (found, valsession) ← validationSessionTable.getOne st.maindb { id := sid } .kValidationSession
  require (found = true ∧ valsession.clientSecret = clientSecret)
    (.sydent "No valid session was found matching that sid and client secret" mNoValidSession)
  if valsession.validated = 0 then
    -- this will throw anyway
    if env.currtime < sessionValidLifetime + valsession.mtime then
      throw (.sydent "This validation session has expired: call requestToken again" mSessionExpired)
    else throw (.sydent "This validation session has not yet been completed" mSessionNotValidated)
  else return valsession

/-- The checks with which `GetValidated3pidAction` and `GetAccessKeyAction` start. -/
def checkSession (st : SharedTable) (env : ActionEnv) (subtok : SubmitTokenT) :
    Except Exn ValidationSessionT := do
  let sid ← stoul subtok.sid
  require (sid ≠ 0) (.sydent "sid value required" mMissingParams)
  require (subtok.clientSecret ≠ []) (.sydent "client_secret value required" mMissingParams)
  validatedSession st env sid subtok.clientSecret

def getValidated3pidAction (st : SharedTable) (env : ActionEnv) (gva : GetValidated3pidDataT) :
    ReadM (Prepared GetValidated3pidDataT) := do
  let valsession ← checkSession st env gva.subtok
  let valresult : ValidatedAtT :=
    { medium := valsession.medium, address := valsession.address, validatedAt := valsession.mtime }
  return ⟨none, fun _ => .ok { gva with valresult := valresult }⟩

/-- The checks with which `Bind3pidAction` starts; it also asks for the user. -/
def checkBinding (st : SharedTable) (env : ActionEnv) (subtok : SubmitTokenT) :
    Except Exn ValidationSessionT := do
  let sid ← stoul subtok.sid
  require (sid ≠ 0) (.sydent "sid value required" mMissingParams)
  require (subtok.clientSecret ≠ []) (.sydent "client_secret value required" mMissingParams)
  require (subtok.mxid ≠ []) (.sydent "mxid value required" mMissingParams)
  validatedSession st env sid subtok.clientSecret

/-- An association of this server, bound to a user. -/
def boundLocal (env : ActionEnv) (mxid : Bytes) (id : ℕ) (localassoc : LocalAssocT) : LocalAssocT :=
  { localassoc with
    id := id
    mxid := mxid
    ts := env.currtime
    notBefore := env.currtime
    notAfter := sessionValidLifetime + env.currtime }

/-- Blindly update local. -/
def bindLocal (st : SharedTable) (env : ActionEnv) (valsession : ValidationSessionT) (mxid : Bytes) :
    ReadM (LocalAssocT × TransactionT) := do
  let (found, localassoc) ← localAssocTable.getOne st.maindb
    { medium := valsession.medium, address := valsession.address } .uLocalAssocMediumAddress
  let id ← takeId found localassoc.id
  let localassoc := boundLocal env mxid id localassoc
  let transaction ← localAssocTable.insert st.maindb localassoc {} found "Cannot Insert local 3pid assoc"
  return (localassoc, transaction)

/-- A published association, bound to a user and not yet signed. -/
def boundGlobal (env : ActionEnv) (valsession : ValidationSessionT) (mxid : Bytes) (id : ℕ)
    (globalassoc : GlobalAssocT) : GlobalAssocT :=
  { globalassoc with
    id := id
    medium := valsession.medium
    address := valsession.address
    mxid := mxid
    ts := env.currtime
    notBefore := env.currtime
    notAfter := sessionValidLifetime + env.currtime
    sgAssoc := [] }

/-- How a binding signs the association that it publishes, and then its notification with each invite. The
signatures made first are handed on. -/
structure BindSigning where
  assoc : Bytes → GlobalAssocT → Except Exn (Bytes × SignatureListT)
  invites : Bytes → SignatureListT → ValidatedInviteT → Except Exn Bytes

/-- Update the association that is published, and sign it. -/
def bindGlobal (signing : BindSigning) (st : SharedTable) (env : ActionEnv) (valsession : ValidationSessionT)
    (mxid : Bytes) (originId : ℕ) (transaction : TransactionT) : ReadM (SignatureListT × TransactionT) := do
  let (found, globalassoc) ← globalAssocTable.getOne st.maindb
    { originId := originId, originServer := st.hostname } .uGlobalAssocOriginServerOriginId
  let id ← takeId found globalassoc.id
  let globalassoc := boundGlobal env valsession mxid id globalassoc
  let (tosign, signatures) ← signing.assoc st.hostname globalassoc
  let transaction ← globalAssocTable.insert st.maindb { globalassoc with sgAssoc := tosign } transaction found
    "Cannot Insert global 3pid assoc"
  return (signatures, transaction)

def inviteItem (mxid : Bytes) (mytok : InviteTokenT) : InviteItemT where
  id := mytok.id
  medium := mytok.medium
  address := mytok.address
  roomId := mytok.roomId
  sender := mytok.sender
  token := mytok.token
  receivedTs := mytok.receivedTs
  sentTs := mytok.sentTs
  mxid := mxid

/-- The loop over the invite tokens of the address. `dupSet` holds the addresses already listed. -/
def sendInvites (st : SharedTable) (env : ActionEnv) (valsession : ValidationSessionT) (mxid : Bytes) :
    List InviteTokenT → List (Bytes × Bytes) → List InviteItemT → TransactionT →
      Except Exn (List InviteItemT × TransactionT)
  | [], _, invites, transaction => .ok (invites, transaction)
  | mytok :: rest, dupSet, invites, transaction => do
    let mytok := { mytok with sentTs := env.currtime }
    -- add for processing before duplicate check
    let transaction ← inviteTokenTable.insert st.maindb mytok transaction true "Cannot update token"
    if (valsession.medium, valsession.address) ∈ dupSet then
      sendInvites st env valsession mxid rest dupSet invites transaction
    else
      sendInvites st env valsession mxid rest ((valsession.medium, valsession.address) :: dupSet)
        (invites ++ [inviteItem mxid mytok]) transaction

/-- The entry for the outgoing notification. -/
def bindMail (id : ℕ) (valsession : ValidationSessionT) (mxid output : Bytes) : ParAvionT where
  id := id
  payload := some
    { id := id
      medium := valsession.medium
      address := valsession.address
      actkey := .aOnBindNotify
      retry := 1
      mpthree := some { payload := output, mxid := mxid } }

/-- `Bind3pidAction` with its `AddSign`. -/
def bind3pidWith (signing : BindSigning) (st : SharedTable) (env : ActionEnv) (bpa : Bind3pidDataT) :
    ReadM (Prepared Bind3pidDataT) := do
  let subtok := bpa.subtok
  let valsession ← checkBinding st env subtok
  let (localassoc, transaction) ← bindLocal st env valsession subtok.mxid
  let (signatures, transaction) ← bindGlobal signing st env valsession subtok.mxid localassoc.id transaction
  let (_, tokenMap) ← inviteTokenTable.getMany st.maindb
    { medium := valsession.medium, address := valsession.address } .empty .iInviteTokenMediumAddress 0 99999
  let (invites, transaction) ← sendInvites st env valsession subtok.mxid (tokenMap.entries.map Prod.snd) [] []
    transaction
  let output ← signing.invites st.hostname signatures
    { medium := valsession.medium
      address := valsession.address
      validatedAt := env.currtime
      invites := invites }
  let mailId ← ReadM.getNext
  let transaction ← parAvionTable.insert st.maindb (bindMail mailId valsession subtok.mxid output) transaction
    false "Cannot Insert paravion"
  return ⟨some transaction, fun _ => .ok { bpa with output := output }⟩

/-- The signing that the environment decides for a request. -/
def envSigning (env : ActionEnv) : BindSigning where
  assoc := env.signAssoc
  invites := env.signInvites

def bind3pidAction (st : SharedTable) (env : ActionEnv) (bpa : Bind3pidDataT) : ReadM (Prepared Bind3pidDataT) :=
  bind3pidWith (envSigning env) st env bpa

end ThreePidService

end Identt.Store
