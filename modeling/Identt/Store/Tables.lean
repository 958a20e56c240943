import Identt.Store.StoreTable

/-! # The tables of the repository

Each `…Table` of the source fixes a record type, its key types and `GetKey`. A key type that a
`GetKey` does not mention falls through to the primary key, as its `default:` label does.
-/

namespace Identt.Store

def InviteTokenT.parse : Value → Option InviteTokenT
  | .empty => some default
  | .inviteToken record => some record
  | _ => none

def InviteTokenT.getKey (record : InviteTokenT) (keytype : KeyTypeE) (pre : Bool) : Bytes :=
  match keytype with
  | .iInviteTokenToken =>
    if pre then encodeSecondaryKey keytype [.strn record.token]
    else encodeSecondaryKey keytype [.strn record.token, .uint record.id]
  | .iInviteTokenMediumAddress =>
    if pre then encodeSecondaryKey keytype [.strn record.medium, .strn record.address]
    else encodeSecondaryKey keytype [.strn record.medium, .strn record.address, .uint record.id]
  | _ => encodePrimaryKey .kInviteToken record.id

def inviteTokenTable : StoreTable InviteTokenT where
  primaryKey := .kInviteToken
  uniqueKeys := []
  indexKeys := [.iInviteTokenMediumAddress, .iInviteTokenToken]
  getKey := InviteTokenT.getKey
  id := InviteTokenT.id
  setId record n := { record with id := n }
  notfound := InviteTokenT.notfound
  serialize := .inviteToken
  parse := InviteTokenT.parse
  getKey_primary _ _ := rfl
  getKey_type record keytype pre member := by
    simp only [List.nil_append, List.mem_cons, List.not_mem_nil, or_false] at member
    rcases member with rfl | rfl <;> cases pre <;> exact hasType_encodeSecondaryKey _ _
  getKey_index left right keytype member same := by
    simp only [List.mem_cons, List.not_mem_nil, or_false] at member
    rcases member with rfl | rfl
    · exact encodeSecondaryKey_uint_injective (List.cons_ne_nil _ [_]) (List.cons_ne_nil _ [_]) same
    · exact encodeSecondaryKey_uint_injective (List.cons_ne_nil _ []) (List.cons_ne_nil _ []) same
  keyTypes_nodup := by decide
  id_setId _ _ := rfl
  parse_serialize _ := rfl

def EphemeralPublicKeyT.parse : Value → Option EphemeralPublicKeyT
  | .empty => some default
  | .ephemeralPublicKey record => some record
  | _ => none

def EphemeralPublicKeyT.getKey (record : EphemeralPublicKeyT) (keytype : KeyTypeE) (_pre : Bool) : Bytes :=
  match keytype with
  | .uEphemeralPublicKeyPublicKey => encodeSecondaryKey keytype [.strn record.publicKey]
  | _ => encodePrimaryKey .kEphemeralPublicKey record.id

def ephemeralPublicKeyTable : StoreTable EphemeralPublicKeyT where
  primaryKey := .kEphemeralPublicKey
  uniqueKeys := [.uEphemeralPublicKeyPublicKey]
  indexKeys := []
  getKey := EphemeralPublicKeyT.getKey
  id := EphemeralPublicKeyT.id
  setId record n := { record with id := n }
  notfound := EphemeralPublicKeyT.notfound
  serialize := .ephemeralPublicKey
  parse := EphemeralPublicKeyT.parse
  getKey_primary _ _ := rfl
  getKey_type record keytype pre member := by
    obtain rfl := List.mem_singleton.mp member
    exact hasType_encodeSecondaryKey _ _
  getKey_index _ _ _ member := by simp at member
  keyTypes_nodup := by decide
  id_setId _ _ := rfl
  parse_serialize _ := rfl

def PeerT.parse : Value → Option PeerT
  | .empty => some default
  | .peer record => some record
  | _ => none

def PeerT.getKey (record : PeerT) (keytype : KeyTypeE) (_pre : Bool) : Bytes :=
  match keytype with
  | .uPeerName => encodeSecondaryKey keytype [.strn record.name]
  | _ => encodePrimaryKey .kPeer record.id

def peerTable : StoreTable PeerT where
  primaryKey := .kPeer
  uniqueKeys := [.uPeerName]
  indexKeys := []
  getKey := PeerT.getKey
  id := PeerT.id
  setId record n := { record with id := n }
  notfound := PeerT.notfound
  serialize := .peer
  parse := PeerT.parse
  getKey_primary _ _ := rfl
  getKey_type record keytype pre member := by
    obtain rfl := List.mem_singleton.mp member
    exact hasType_encodeSecondaryKey _ _
  getKey_index _ _ _ member := by simp at member
  keyTypes_nodup := by decide
  id_setId _ _ := rfl
  parse_serialize _ := rfl

def PeerPubKeyT.parse : Value → Option PeerPubKeyT
  | .empty => some default
  | .peerPubKey record => some record
  | _ => none

def PeerPubKeyT.getKey (record : PeerPubKeyT) (keytype : KeyTypeE) (_pre : Bool) : Bytes :=
  match keytype with
  | .uPeerPubKeyPeerNameAlg =>
    encodeSecondaryKey keytype [.strn record.peername, .strn record.alg]
  | _ => encodePrimaryKey .kPeerPubKey record.id

def peerPubKeyTable : StoreTable PeerPubKeyT where
  primaryKey := .kPeerPubKey
  uniqueKeys := [.uPeerPubKeyPeerNameAlg]
  indexKeys := []
  getKey := PeerPubKeyT.getKey
  id := PeerPubKeyT.id
  setId record n := { record with id := n }
  notfound := PeerPubKeyT.notfound
  serialize := .peerPubKey
  parse := PeerPubKeyT.parse
  getKey_primary _ _ := rfl
  getKey_type record keytype pre member := by
    obtain rfl := List.mem_singleton.mp member
    exact hasType_encodeSecondaryKey _ _
  getKey_index _ _ _ member := by simp at member
  keyTypes_nodup := by decide
  id_setId _ _ := rfl
  parse_serialize _ := rfl

def LocalAssocT.parse : Value → Option LocalAssocT
  | .empty => some default
  | .localAssoc record => some record
  | _ => none

def LocalAssocT.getKey (record : LocalAssocT) (keytype : KeyTypeE) (_pre : Bool) : Bytes :=
  match keytype with
  | .uLocalAssocMediumAddress =>
    encodeSecondaryKey keytype [.strn record.medium, .strn record.address]
  | _ => encodePrimaryKey .kLocalAssoc record.id

def localAssocTable : StoreTable LocalAssocT where
  primaryKey := .kLocalAssoc
  uniqueKeys := [.uLocalAssocMediumAddress]
  indexKeys := []
  getKey := LocalAssocT.getKey
  id := LocalAssocT.id
  setId record n := { record with id := n }
  notfound := LocalAssocT.notfound
  serialize := .localAssoc
  parse := LocalAssocT.parse
  getKey_primary _ _ := rfl
  getKey_type record keytype pre member := by
    obtain rfl := List.mem_singleton.mp member
    exact hasType_encodeSecondaryKey _ _
  getKey_index _ _ _ member := by simp at member
  keyTypes_nodup := by decide
  id_setId _ _ := rfl
  parse_serialize _ := rfl

def GlobalAssocT.parse : Value → Option GlobalAssocT
  | .empty => some default
  | .globalAssoc record => some record
  | _ => none

def GlobalAssocT.getKey (record : GlobalAssocT) (keytype : KeyTypeE) (pre : Bool) : Bytes :=
  match keytype with
  | .uGlobalAssocOriginServerOriginId =>
    encodeSecondaryKey keytype [.strn record.originServer, .uint record.originId]
  | .iGlobalAssocMediumAddress =>
    if pre then encodeSecondaryKey keytype [.strn record.medium, .strn record.address]
    else encodeSecondaryKey keytype [.strn record.medium, .strn record.address, .uint record.id]
  | _ => encodePrimaryKey .kGlobalAssoc record.id

def globalAssocTable : StoreTable GlobalAssocT where
  primaryKey := .kGlobalAssoc
  uniqueKeys := [.uGlobalAssocOriginServerOriginId]
  indexKeys := [.iGlobalAssocMediumAddress]
  getKey := GlobalAssocT.getKey
  id := GlobalAssocT.id
  setId record n := { record with id := n }
  notfound := GlobalAssocT.notfound
  serialize := .globalAssoc
  parse := GlobalAssocT.parse
  getKey_primary _ _ := rfl
  getKey_type record keytype pre member := by
    simp only [List.cons_append, List.nil_append, List.mem_cons, List.not_mem_nil, or_false] at member
    rcases member with rfl | rfl <;> cases pre <;> exact hasType_encodeSecondaryKey _ _
  getKey_index left right keytype member same := by
    obtain rfl := List.mem_singleton.mp member
    exact encodeSecondaryKey_uint_injective (List.cons_ne_nil _ [_]) (List.cons_ne_nil _ [_]) same
  keyTypes_nodup := by decide
  id_setId _ _ := rfl
  parse_serialize _ := rfl

def ValidationSessionT.parse : Value → Option ValidationSessionT
  | .empty => some default
  | .validationSession record => some record
  | _ => none

def ValidationSessionT.getKey (record : ValidationSessionT) (keytype : KeyTypeE) (_pre : Bool) : Bytes :=
  match keytype with
  | .uValidationSessionMediumAddressClientSecret =>
    encodeSecondaryKey keytype [.strn record.medium, .strn record.address, .strn record.clientSecret]
  | _ => encodePrimaryKey .kValidationSession record.id

def validationSessionTable : StoreTable ValidationSessionT where
  primaryKey := .kValidationSession
  uniqueKeys := [.uValidationSessionMediumAddressClientSecret]
  indexKeys := []
  getKey := ValidationSessionT.getKey
  id := ValidationSessionT.id
  setId record n := { record with id := n }
  notfound := ValidationSessionT.notfound
  serialize := .validationSession
  parse := ValidationSessionT.parse
  getKey_primary _ _ := rfl
  getKey_type record keytype pre member := by
    obtain rfl := List.mem_singleton.mp member
    exact hasType_encodeSecondaryKey _ _
  getKey_index _ _ _ member := by simp at member
  keyTypes_nodup := by decide
  id_setId _ _ := rfl
  parse_serialize _ := rfl

def TokenAuthT.parse : Value → Option TokenAuthT
  | .empty => some default
  | .tokenAuth record => some record
  | _ => none

def TokenAuthT.getKey (record : TokenAuthT) (keytype : KeyTypeE) (_pre : Bool) : Bytes :=
  match keytype with
  | .uTokenAuthValidationSession => encodeSecondaryKey keytype [.uint record.validationSession]
  | _ => encodePrimaryKey .kTokenAuth record.id

def tokenAuthTable : StoreTable TokenAuthT where
  primaryKey := .kTokenAuth
  uniqueKeys := [.uTokenAuthValidationSession]
  indexKeys := []
  getKey := TokenAuthT.getKey
  id := TokenAuthT.id
  setId record n := { record with id := n }
  notfound := TokenAuthT.notfound
  serialize := .tokenAuth
  parse := TokenAuthT.parse
  getKey_primary _ _ := rfl
  getKey_type record keytype pre member := by
    obtain rfl := List.mem_singleton.mp member
    exact hasType_encodeSecondaryKey _ _
  getKey_index _ _ _ member := by simp at member
  keyTypes_nodup := by decide
  id_setId _ _ := rfl
  parse_serialize _ := rfl

def ParAvionT.parse : Value → Option ParAvionT
  | .empty => some default
  | .parAvion record => some record
  | _ => none

def ParAvionT.getKey (record : ParAvionT) (_keytype : KeyTypeE) (_pre : Bool) : Bytes :=
  encodePrimaryKey .kParAvion record.id

def parAvionTable : StoreTable ParAvionT where
  primaryKey := .kParAvion
  uniqueKeys := []
  indexKeys := []
  getKey := ParAvionT.getKey
  id := ParAvionT.id
  setId record n := { record with id := n }
  notfound := ParAvionT.notfound
  serialize := .parAvion
  parse := ParAvionT.parse
  getKey_primary _ _ := rfl
  getKey_type _ _ _ member := by simp at member
  getKey_index _ _ _ member := by simp at member
  keyTypes_nodup := by decide
  id_setId _ _ := rfl
  parse_serialize _ := rfl

def MailSentT.parse : Value → Option MailSentT
  | .empty => some default
  | .mailSent record => some record
  | _ => none

def MailSentT.getKey (record : MailSentT) (_keytype : KeyTypeE) (_pre : Bool) : Bytes :=
  encodePrimaryKey .kMailSent record.id

def mailSentTable : StoreTable MailSentT where
  primaryKey := .kMailSent
  uniqueKeys := []
  indexKeys := []
  getKey := MailSentT.getKey
  id := MailSentT.id
  setId record n := { record with id := n }
  notfound := MailSentT.notfound
  serialize := .mailSent
  parse := MailSentT.parse
  getKey_primary _ _ := rfl
  getKey_type _ _ _ member := by simp at member
  getKey_index _ _ _ member := by simp at member
  keyTypes_nodup := by decide
  id_setId _ _ := rfl
  parse_serialize _ := rfl

def AccessKeyT.parse : Value → Option AccessKeyT
  | .empty => some default
  | .accessKey record => some record
  | _ => none

def AccessKeyT.getKey (record : AccessKeyT) (keytype : KeyTypeE) (_pre : Bool) : Bytes :=
  match keytype with
  | .uAccessKeyMediumAddress =>
    encodeSecondaryKey keytype [.strn record.medium, .strn record.address]
  | _ => encodePrimaryKey .kAccessKey record.id

def accessKeyTable : StoreTable AccessKeyT where
  primaryKey := .kAccessKey
  uniqueKeys := [.uAccessKeyMediumAddress]
  indexKeys := []
  getKey := AccessKeyT.getKey
  id := AccessKeyT.id
  setId record n := { record with id := n }
  notfound := AccessKeyT.notfound
  serialize := .accessKey
  parse := AccessKeyT.parse
  getKey_primary _ _ := rfl
  getKey_type record keytype pre member := by
    obtain rfl := List.mem_singleton.mp member
    exact hasType_encodeSecondaryKey _ _
  getKey_index _ _ _ member := by simp at member
  keyTypes_nodup := by decide
  id_setId _ _ := rfl
  parse_serialize _ := rfl

def BlobStoreT.parse : Value → Option BlobStoreT
  | .empty => some default
  | .blobStore record => some record
  | _ => none

def BlobStoreT.getKey (record : BlobStoreT) (keytype : KeyTypeE) (_pre : Bool) : Bytes :=
  match keytype with
  | .uBlobStoreKeyIdTag => encodeSecondaryKey keytype [.uint record.keyid, .strn record.tag]
  | _ => encodePrimaryKey .kBlobStore record.id

def blobStoreTable : StoreTable BlobStoreT where
  primaryKey := .kBlobStore
  uniqueKeys := [.uBlobStoreKeyIdTag]
  indexKeys := []
  getKey := BlobStoreT.getKey
  id := BlobStoreT.id
  setId record n := { record with id := n }
  notfound := BlobStoreT.notfound
  serialize := .blobStore
  parse := BlobStoreT.parse
  getKey_primary _ _ := rfl
  getKey_type record keytype pre member := by
    obtain rfl := List.mem_singleton.mp member
    exact hasType_encodeSecondaryKey _ _
  getKey_index _ _ _ member := by simp at member
  keyTypes_nodup := by decide
  id_setId _ _ := rfl
  parse_serialize _ := rfl

/-- The tables built by the repository. -/
inductive TableName where
  | inviteToken | ephemeralPublicKey | peer | peerPubKey | localAssoc | globalAssoc | validationSession
  | tokenAuth | parAvion | mailSent | accessKey | blobStore
deriving DecidableEq, Repr, Inhabited

namespace TableName

/-- The record type of a table. -/
@[reducible] def Record : TableName → Type
  | .inviteToken => InviteTokenT
  | .ephemeralPublicKey => EphemeralPublicKeyT
  | .peer => PeerT
  | .peerPubKey => PeerPubKeyT
  | .localAssoc => LocalAssocT
  | .globalAssoc => GlobalAssocT
  | .validationSession => ValidationSessionT
  | .tokenAuth => TokenAuthT
  | .parAvion => ParAvionT
  | .mailSent => MailSentT
  | .accessKey => AccessKeyT
  | .blobStore => BlobStoreT

instance : (name : TableName) → Inhabited name.Record
  | .inviteToken => inferInstanceAs (Inhabited InviteTokenT)
  | .ephemeralPublicKey => inferInstanceAs (Inhabited EphemeralPublicKeyT)
  | .peer => inferInstanceAs (Inhabited PeerT)
  | .peerPubKey => inferInstanceAs (Inhabited PeerPubKeyT)
  | .localAssoc => inferInstanceAs (Inhabited LocalAssocT)
  | .globalAssoc => inferInstanceAs (Inhabited GlobalAssocT)
  | .validationSession => inferInstanceAs (Inhabited ValidationSessionT)
  | .tokenAuth => inferInstanceAs (Inhabited TokenAuthT)
  | .parAvion => inferInstanceAs (Inhabited ParAvionT)
  | .mailSent => inferInstanceAs (Inhabited MailSentT)
  | .accessKey => inferInstanceAs (Inhabited AccessKeyT)
  | .blobStore => inferInstanceAs (Inhabited BlobStoreT)

def table : (name : TableName) → StoreTable name.Record
  | .inviteToken => inviteTokenTable
  | .ephemeralPublicKey => ephemeralPublicKeyTable
  | .peer => peerTable
  | .peerPubKey => peerPubKeyTable
  | .localAssoc => localAssocTable
  | .globalAssoc => globalAssocTable
  | .validationSession => validationSessionTable
  | .tokenAuth => tokenAuthTable
  | .parAvion => parAvionTable
  | .mailSent => mailSentTable
  | .accessKey => accessKeyTable
  | .blobStore => blobStoreTable

/-- All key types of a table. -/
def keyTypes (name : TableName) : List KeyTypeE :=
  name.table.primaryKey :: (name.table.uniqueKeys ++ name.table.indexKeys)

/-- Tables share no key type, and none uses the key type of the log. -/
theorem keyTypes_disjoint {left right : TableName} (other : left ≠ right) {keytype : KeyTypeE}
    (inLeft : keytype ∈ left.keyTypes) : keytype ∉ right.keyTypes := by
  revert keytype
  cases left <;> cases right <;> first | contradiction | decide

theorem kLogNode_notMem (name : TableName) : KeyTypeE.kLogNode ∉ name.keyTypes := by
  cases name <;> decide

end TableName

end Identt.Store
