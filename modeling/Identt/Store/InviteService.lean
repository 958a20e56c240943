import Identt.Store.Service

/-! # Inviting an address that is not bound yet (`InviteService`)

An invite is stored with a token and a fresh pair of keys until the address is bound, and announced
to the address by an outgoing message.
-/

namespace Identt.Store

open Query

namespace InviteService

/-- The entry for token store. -/
def inviteToken (id : ℕ) (env : ActionEnv) (invqry : InviteQueryT) : InviteTokenT where
  id := id
  medium := invqry.medium
  address := invqry.address
  roomId := invqry.roomId
  sender := invqry.sender
  token := env.uuid
  receivedTs := env.currtime

/-- The entry for public_key. -/
def ephemeralKey (id : ℕ) (env : ActionEnv) : EphemeralPublicKeyT where
  id := id
  publicKey := env.publicKey
  persistenceTs := env.currtime

/-- The entry for the outgoing invitation. -/
def inviteMail (id : ℕ) (env : ActionEnv) (invqry : InviteQueryT) : ParAvionT where
  id := id
  payload := some
    { id := id
      medium := invqry.medium
      address := invqry.address
      actkey := .aRoomInvite
      retry := 1
      mptwo := some
        { roomId := invqry.roomId
          sender := invqry.sender
          token := env.uuid
          ephemeralPrivateKey := env.secretKey } }

/-- What `StoreInviteAction` returns: the token, the system's public key, and where to check it and
the new key. -/
def storeInviteReply (st : SharedTable) (env : ActionEnv) (inv : StoreInviteDataT) : StoreInviteDataT :=
  { inv with
    invres :=
      { token := env.uuid
        publicKey := st.publicKey
        publicKeys := inv.invres.publicKeys ++
          [⟨st.baseurl ++ ascii "/_matrix/identity/api/v1/pubkey/isvalid", st.publicKey⟩,
            ⟨st.baseurl ++ ascii "_matrix/identity/api/v1/pubkey/ephemeral/isvalid", env.publicKey⟩] } }

def storeInviteAction (st : SharedTable) (env : ActionEnv) (inv : StoreInviteDataT) :
    ReadM (Prepared StoreInviteDataT) := do
  let invqry := inv.invqry
  let (bound, assocMap) ← globalAssocTable.getMany st.maindb
    { medium := invqry.medium, address := invqry.address } .empty .iGlobalAssocMediumAddress 0 1
  require (¬ (bound = true ∧ assocMap.entries ≠ [])) (.sydent "Binding already known" mThreepidInUse)
  let (known, tokenMap) ← inviteTokenTable.getMany st.maindb { token := env.uuid } .empty
    .iInviteTokenToken 0 1
  require (¬ (known = true ∧ tokenMap.entries ≠ [])) (.badData "Duplicate token Generated , please retry")
  let tokenId ← ReadM.getNext
  let transaction ← inviteTokenTable.insert st.maindb (inviteToken tokenId env invqry) {} false
    "Cannot Insert token"
  let (found, _) ← ephemeralPublicKeyTable.getOne st.maindb { publicKey := env.publicKey }
    .uEphemeralPublicKeyPublicKey
  require (found = false) (.badData "Duplicate Public Key Generated , please retry")
  let keyId ← ReadM.getNext
  let transaction ← ephemeralPublicKeyTable.insert st.maindb (ephemeralKey keyId env) transaction false
    "Cannot Insert ephemeral key"
  let mailId ← ReadM.getNext
  let transaction ← parAvionTable.insert st.maindb (inviteMail mailId env invqry) transaction false
    "Cannot Insert paravion"
  return ⟨some transaction, fun _ => .ok (storeInviteReply st env inv)⟩

end InviteService

end Identt.Store
