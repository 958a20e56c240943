import Identt.Query.SignedJson
import Identt.Store.Service

/-! # Public keys (`PubKeyService`)

The server answers which key a name stands for and whether a key is valid: its own keys by the keyring, the
short-lived ones of invites by their table.
-/

namespace Identt.Store

open Crypto Query

/-- The entries of the keyring, in the map's iteration order. -/
abbrev KeyEntries := List (Bytes × Ed25519)

def KeyEntries.keyring (keys : KeyEntries) : KeyRing := fun pkid => keys.lookup pkid

namespace PubKeyService

def getPubKeyAction (keys : KeyEntries) (pubkey : PubKeyT) : PubKeyT :=
  match keys.keyring pubkey.pkid with
  | some key => { publicKey := key.getPublicKey }
  | none => pubkey

/-- What `valid` is set to. -/
def getPubKeyValidAction (keys : KeyEntries) (pubkey : PubKeyT) : Bool :=
  keys.any fun entry => entry.2.getPublicKey = pubkey.publicKey

/-- Whether `valid` is set. -/
def getEphemeralValidAction (st : SharedTable) (pubkey : PubKeyT) : Except Exn Bool := do
  let (found, _) ← ephemeralPublicKeyTable.getOne st.maindb { publicKey := pubkey.publicKey }
    .uEphemeralPublicKeyPublicKey
  return found

end PubKeyService

end Identt.Store
