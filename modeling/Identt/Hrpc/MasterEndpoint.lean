import Identt.Store.BlobDataService
import Identt.Store.InviteService
import Identt.Store.MailSmsService
import Identt.Store.ValidateService

/-! # The requests the master serves (`HrpcMasterEndpointService`)

The services that can write. Requests come in over HTTP or from a slave; either way the same actions
run, on a copy of the request that becomes the answer. What is checked before (the shared secret,
whether the node is ready and the master) decides only whether an action runs at all.
-/

namespace Identt.Hrpc

open Store Query

inductive MasterRequest where
  | requestToken (data : RequestTokenDataT)
  | submitToken (data : SubmitTokenDataT)
  | getValidated3pid (data : GetValidated3pidDataT)
  | bind3pid (data : Bind3pidDataT)
  | storeInvite (data : StoreInviteDataT)
  | pending (data : Mail.MailQueryT)
  | getAccessKey (data : GetAccessDataT)
  | setBlobData (data : SetBlobDataT)
deriving DecidableEq, Repr, Inhabited

/-- The first half of the action behind a request. -/
def MasterRequest.read (st : SharedTable) (env : ActionEnv) : MasterRequest → ReadM (Prepared MasterRequest)
  | .requestToken data => do
    return (← ValidateService.requestTokenAction st env data).map .requestToken
  | .submitToken data => do
    return (← ValidateService.submitTokenAction st env data).map .submitToken
  | .getValidated3pid data => do
    return (← ThreePidService.getValidated3pidAction st env data).map .getValidated3pid
  | .bind3pid data => do
    return (← ThreePidService.bind3pidAction st env data).map .bind3pid
  | .storeInvite data => do
    return (← InviteService.storeInviteAction st env data).map .storeInvite
  | .pending data => do
    return (← MailSmsService.pendingAction st env data).map .pending
  | .getAccessKey data => do
    return (← BlobDataService.getAccessKeyAction st env data).map .getAccessKey
  | .setBlobData data => do
    return (← BlobDataService.setBlobDataAction st env data).map .setBlobData

/-- Serve a request while no other one runs. -/
def serve (st : SharedTable) (request : MasterRequest) (env : ActionEnv) :
    Except Exn MasterRequest × SharedTable := runAction env.commit st (request.read st env)

end Identt.Hrpc
