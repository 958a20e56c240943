import Identt.Proto.Store

/-! # Messages of `Query.proto`

The requests of the services that run on the master, each with the part that its action fills in.
Fields that no action reads or writes are left out.
-/

namespace Identt.Query

/-! The error codes that the services throw with a `SydentException`. -/

def mBadJson : ℕ := 101

def mIncorrectClientSecret : ℕ := 104

def mInvalidEmail : ℕ := 105

def mInvalidPhoneNumber : ℕ := 107

def mMissingParams : ℕ := 108

def mNoValidSession : ℕ := 110

def mSessionExpired : ℕ := 111

def mSessionNotValidated : ℕ := 112

def mThreepidInUse : ℕ := 116

structure ErrorT where
  error : Bytes := []
  success : Bool := false
deriving DecidableEq, Repr, Inhabited

structure RequestTokenT where
  clientSecret : Bytes := []
  sendAttempt : ℤ := 0
  email : Bytes := []
  country : Bytes := []
  phoneNumber : Bytes := []
deriving DecidableEq, Repr, Inhabited

structure SuccessSidT where
  success : Bool := false
  sid : Bytes := []
  msisdn : Bytes := []
  intlFmt : Bytes := []
deriving DecidableEq, Repr, Inhabited

structure SubmitTokenT where
  sid : Bytes := []
  clientSecret : Bytes := []
  token : Bytes := []
  mxid : Bytes := []
deriving DecidableEq, Repr, Inhabited

structure InviteItemT where
  id : ℕ := 0
  medium : Bytes := []
  address : Bytes := []
  roomId : Bytes := []
  sender : Bytes := []
  token : Bytes := []
  receivedTs : UInt64 := 0
  sentTs : UInt64 := 0
  mxid : Bytes := []
deriving DecidableEq, Repr, Inhabited

structure ValidatedAtT where
  medium : Bytes := []
  address : Bytes := []
  validatedAt : UInt64 := 0
deriving DecidableEq, Repr, Inhabited

structure ValidatedInviteT where
  medium : Bytes := []
  address : Bytes := []
  validatedAt : UInt64 := 0
  invites : List InviteItemT := []
deriving DecidableEq, Repr, Inhabited

structure InviteQueryT where
  medium : Bytes := []
  address : Bytes := []
  roomId : Bytes := []
  sender : Bytes := []
deriving DecidableEq, Repr, Inhabited

structure PubKeyRetT where
  keyValidityUrl : Bytes := []
  publicKey : Bytes := []
deriving DecidableEq, Repr, Inhabited

structure InviteResultT where
  token : Bytes := []
  publicKey : Bytes := []
  publicKeys : List PubKeyRetT := []
deriving DecidableEq, Repr, Inhabited

structure PubKeyT where
  algo : Bytes := []
  identifier : Bytes := []
  owner : Bytes := []
  publicKey : Bytes := []
  privateKey : Bytes := []
  noKeyring : Bool := false
deriving DecidableEq, Repr, Inhabited

structure LookupQueryT where
  medium : Bytes := []
  address : Bytes := []
deriving DecidableEq, Repr, Inhabited

structure LookupResultT where
  medium : Bytes := []
  address : Bytes := []
  mxid : Bytes := []
  ts : UInt64 := 0
  notBefore : UInt64 := 0
  notAfter : UInt64 := 0
deriving DecidableEq, Repr, Inhabited

structure LookupDataT where
  query : LookupQueryT := {}
  result : LookupResultT := {}
deriving DecidableEq, Repr, Inhabited

structure BulkLookupQueryT where
  threepids : List LookupQueryT := []
deriving DecidableEq, Repr, Inhabited

structure BulkLookupResultT where
  threepids : List LookupResultT := []
deriving DecidableEq, Repr, Inhabited

structure BulkLookupDataT where
  query : BulkLookupQueryT := {}
  result : BulkLookupResultT := {}
deriving DecidableEq, Repr, Inhabited

structure RequestTokenDataT where
  reqtok : RequestTokenT := {}
  ssid : SuccessSidT := {}
  medium : Bytes := []
  token : Bytes := []
deriving DecidableEq, Repr, Inhabited

structure SubmitTokenDataT where
  subtok : SubmitTokenT := {}
  result : ErrorT := {}
deriving DecidableEq, Repr, Inhabited

structure GetValidated3pidDataT where
  subtok : SubmitTokenT := {}
  valresult : ValidatedAtT := {}
deriving DecidableEq, Repr, Inhabited

structure Bind3pidDataT where
  subtok : SubmitTokenT := {}
  output : Bytes := []
deriving DecidableEq, Repr, Inhabited

structure StoreInviteDataT where
  invqry : InviteQueryT := {}
  invres : InviteResultT := {}
deriving DecidableEq, Repr, Inhabited

structure AccessBlobT where
  accesskey : Bytes := []
  tag : Bytes := []
  jsondata : Bytes := []
  textdata : Bytes := []
  accessdenied : Bool := false
deriving DecidableEq, Repr, Inhabited

structure GetAccessDataT where
  subtok : SubmitTokenT := {}
  accessblob : AccessBlobT := {}
deriving DecidableEq, Repr, Inhabited

structure GetBlobDataT where
  accessblob : AccessBlobT := {}
deriving DecidableEq, Repr, Inhabited

structure SetBlobDataT where
  accessblob : AccessBlobT := {}
deriving DecidableEq, Repr, Inhabited

end Identt.Query
