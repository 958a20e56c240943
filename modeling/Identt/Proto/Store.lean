import Identt.Lib.WriteBatch
import Mathlib.Algebra.Group.Nat.Defs
import Mathlib.Data.List.TakeWhile

/-! # Messages of `Mail.proto` and `Store.proto`

A `std::string` is a list of bytes. Identifiers and counters are natural numbers; the millisecond
times, which the services subtract from each other, stay machine words. The store keeps messages in
serialised form; the model keeps the message itself, since parsing a serialised message gives it
back, and the empty string, which parses to the default value of every message, as a value of its
own. That a message comes back is protobuf's promise for `string` fields in UTF-8, which `proto3` asks
of whoever sets them; the model assumes it of all texts. Every message is `Inhabited` by its proto3 default.
-/

namespace Identt

abbrev Bytes := List UInt8

/-- A string literal of the source. -/
def ascii (text : String) : Bytes := text.toUTF8.data.toList

/-- What a C string holds. -/
def cString (text : Bytes) : Bytes := text.takeWhile (· ≠ 0)

theorem cString_of_ne_zero {text : Bytes} (noNul : ∀ c ∈ text, c ≠ 0) : cString text = text := by
  rw [cString, List.takeWhile_eq_self_iff]
  exact fun c member => decide_eq_true (noNul c member)

theorem zero_notMem_cString (text : Bytes) : 0 ∉ cString text := fun member => by
  simpa using List.mem_takeWhile_imp member

theorem cString_cString (text : Bytes) : cString (cString text) = cString text :=
  cString_of_ne_zero fun c member => by simpa using List.mem_takeWhile_imp member

namespace Mail

inductive ActTypeE where
  | aNoAction | aMailSent | aAuthToken | aUserInvite | aRoomInvite | aOnBindNotify
deriving DecidableEq, Repr, Inhabited

structure MPOneT where
  sid : Bytes := []
  country : Bytes := []
  token : Bytes := []
  phoneNoIsd : Bytes := []
deriving DecidableEq, Repr, Inhabited

structure MPTwoT where
  roomId : Bytes := []
  sender : Bytes := []
  token : Bytes := []
  ephemeralPrivateKey : Bytes := []
deriving DecidableEq, Repr, Inhabited

structure MPThreeT where
  mxid : Bytes := []
  payload : Bytes := []
deriving DecidableEq, Repr, Inhabited

/-- An outgoing message; at most the part that belongs to its `actkey` is set. -/
structure MPayloadT where
  id : ℕ := 0
  medium : Bytes := []
  address : Bytes := []
  actkey : ActTypeE := .aNoAction
  retry : ℤ := 0
  mpone : Option MPOneT := none
  mptwo : Option MPTwoT := none
  mpthree : Option MPThreeT := none
deriving DecidableEq, Repr, Inhabited

structure MailQueryT where
  medium : Bytes := []
  lastid : ℕ := 0
  limit : ℕ := 0
  sharedSecret : Bytes := []
  payload : List MPayloadT := []
deriving DecidableEq, Repr, Inhabited

end Mail

namespace Store

/-- Key types: primary keys `k…`, non-unique indexes `i…`, unique indexes `u…`. -/
inductive KeyTypeE where
  | noKey | sysKey | keyPairs
  | kNoNode | kInviteToken | kEphemeralPublicKey | kPeer | kPeerPubKey | kLocalAssoc | kGlobalAssoc
  | kValidationSession | kTokenAuth | kParAvion | kMailSent | kAccessKey | kBlobStore
  | kLogNode | kMaxNode
  | iNoIndex | iInviteTokenMediumAddress | iInviteTokenToken
  | uEphemeralPublicKeyPublicKey | uPeerName | uPeerPubKeyPeerNameAlg | uLocalAssocMediumAddress
  | iGlobalAssocMediumAddress | uGlobalAssocOriginServerOriginId | uTokenAuthValidationSession
  | uValidationSessionMediumAddressClientSecret | uAccessKeyMediumAddress | uBlobStoreKeyIdTag
deriving DecidableEq, Repr, Inhabited

/-- The enumerator's number. -/
def KeyTypeE.number : KeyTypeE → ℕ
  | .noKey => 0
  | .sysKey => 1
  | .keyPairs => 2
  | .kNoNode => 10
  | .kInviteToken => 11
  | .kEphemeralPublicKey => 12
  | .kPeer => 13
  | .kPeerPubKey => 14
  | .kLocalAssoc => 15
  | .kGlobalAssoc => 16
  | .kValidationSession => 17
  | .kTokenAuth => 18
  | .kParAvion => 19
  | .kMailSent => 20
  | .kAccessKey => 21
  | .kBlobStore => 22
  | .kLogNode => 23
  | .kMaxNode => 24
  | .iNoIndex => 50
  | .iInviteTokenMediumAddress => 51
  | .iInviteTokenToken => 52
  | .uEphemeralPublicKeyPublicKey => 53
  | .uPeerName => 54
  | .uPeerPubKeyPeerNameAlg => 55
  | .uLocalAssocMediumAddress => 56
  | .iGlobalAssocMediumAddress => 57
  | .uGlobalAssocOriginServerOriginId => 59
  | .uTokenAuthValidationSession => 60
  | .uValidationSessionMediumAddressClientSecret => 62
  | .uAccessKeyMediumAddress => 63
  | .uBlobStoreKeyIdTag => 64

theorem KeyTypeE.number_lt (keytype : KeyTypeE) : keytype.number < 16 ^ 2 := by
  cases keytype <;> decide

theorem KeyTypeE.number_injective : Function.Injective KeyTypeE.number := by
  intro left right
  cases left <;> cases right <;> decide

structure NodeT where
  keytype : KeyTypeE := .noKey
  id : ℕ := 0
deriving DecidableEq, Repr, Inhabited

structure InviteTokenT where
  id : ℕ := 0
  medium : Bytes := []
  address : Bytes := []
  roomId : Bytes := []
  sender : Bytes := []
  token : Bytes := []
  receivedTs : UInt64 := 0
  sentTs : UInt64 := 0
  notfound : Bool := false
deriving DecidableEq, Repr, Inhabited

structure EphemeralPublicKeyT where
  id : ℕ := 0
  publicKey : Bytes := []
  verifyCount : ℕ := 0
  persistenceTs : UInt64 := 0
  notfound : Bool := false
deriving DecidableEq, Repr, Inhabited

structure PeerT where
  id : ℕ := 0
  name : Bytes := []
  port : ℕ := 0
  lastSeenVersion : ℕ := 0
  lastPokeSuccededAt : UInt64 := 0
  active : ℕ := 0
  notfound : Bool := false
deriving DecidableEq, Repr, Inhabited

structure PeerPubKeyT where
  id : ℕ := 0
  peername : Bytes := []
  alg : Bytes := []
  key : Bytes := []
  notfound : Bool := false
deriving DecidableEq, Repr, Inhabited

structure LocalAssocT where
  id : ℕ := 0
  medium : Bytes := []
  address : Bytes := []
  mxid : Bytes := []
  ts : UInt64 := 0
  notBefore : UInt64 := 0
  notAfter : UInt64 := 0
  notfound : Bool := false
deriving DecidableEq, Repr, Inhabited

structure GlobalAssocT where
  id : ℕ := 0
  medium : Bytes := []
  address : Bytes := []
  mxid : Bytes := []
  ts : UInt64 := 0
  notBefore : UInt64 := 0
  notAfter : UInt64 := 0
  originServer : Bytes := []
  originId : ℕ := 0
  sgAssoc : Bytes := []
  notfound : Bool := false
deriving DecidableEq, Repr, Inhabited

structure ValidationSessionT where
  id : ℕ := 0
  medium : Bytes := []
  address : Bytes := []
  clientSecret : Bytes := []
  validated : ℕ := 0
  mtime : UInt64 := 0
  notfound : Bool := false
deriving DecidableEq, Repr, Inhabited

structure TokenAuthT where
  id : ℕ := 0
  validationSession : ℕ := 0
  token : Bytes := []
  sendAttemptNumber : ℤ := 0
  notfound : Bool := false
deriving DecidableEq, Repr, Inhabited

structure ParAvionT where
  id : ℕ := 0
  medium : Bytes := []
  payload : Option Mail.MPayloadT := none
  notfound : Bool := false
deriving DecidableEq, Repr, Inhabited

structure MailSentT where
  id : ℕ := 0
  medium : Bytes := []
  sentAt : UInt64 := 0
  sentBy : Bytes := []
  payload : Option Mail.MPayloadT := none
  notfound : Bool := false
deriving DecidableEq, Repr, Inhabited

structure AccessKeyT where
  id : ℕ := 0
  medium : Bytes := []
  address : Bytes := []
  accesskey : Bytes := []
  notfound : Bool := false
deriving DecidableEq, Repr, Inhabited

structure BlobStoreT where
  id : ℕ := 0
  keyid : ℕ := 0
  tag : Bytes := []
  jsondata : Bytes := []
  textdata : Bytes := []
  notfound : Bool := false
deriving DecidableEq, Repr, Inhabited

/-- A serialised message other than a transaction. -/
inductive Value where
  | empty
  | node (node : NodeT)
  | inviteToken (record : InviteTokenT)
  | ephemeralPublicKey (record : EphemeralPublicKeyT)
  | peer (record : PeerT)
  | peerPubKey (record : PeerPubKeyT)
  | localAssoc (record : LocalAssocT)
  | globalAssoc (record : GlobalAssocT)
  | validationSession (record : ValidationSessionT)
  | tokenAuth (record : TokenAuthT)
  | parAvion (record : ParAvionT)
  | mailSent (record : MailSentT)
  | accessKey (record : AccessKeyT)
  | blobStore (record : BlobStoreT)
deriving DecidableEq, Repr, Inhabited

structure TransItemT where
  key : Bytes := []
  value : Value := .empty
  toDel : Bool := false
deriving DecidableEq, Repr, Inhabited

structure TransactionT where
  id : ℕ := 0
  item : List TransItemT := []
  ts : UInt64 := 0
  notfound : Bool := false
deriving DecidableEq, Repr, Inhabited

structure TransListT where
  lastid : ℕ := 0
  limit : ℕ := 0
  trans : List TransactionT := []
  currid : ℕ := 0
  ts : UInt64 := 0
  endpoint : Bytes := []
deriving DecidableEq, Repr, Inhabited

/-- What a store key holds: a message of the data, or a transaction of the log. -/
inductive Stored where
  | data (value : Value)
  | log (record : TransactionT)
deriving DecidableEq, Repr, Inhabited

abbrev DB := OrderedMap Bytes Stored

/-- `NodeT::ParseFromString`. -/
def NodeT.parse : Stored → Option NodeT
  | .data .empty => some default
  | .data (.node node) => some node
  | _ => none

/-- `TransactionT::ParseFromString`. -/
def TransactionT.parse : Stored → Option TransactionT
  | .data .empty => some default
  | .log record => some record
  | _ => none

end Store

end Identt
