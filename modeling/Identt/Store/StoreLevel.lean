import Identt.Store.StoreCache
import Identt.Utils.SharedTable

/-! # Opening a store (`StoreLevel`) and starting a node (`WorkServer`)

Opening puts an empty record with identifier zero in front of every primary key type and reads the
last identifier of each type off the key just before the next type. A node takes its counters from
these, or one if there is none.
-/

namespace Identt

open Store

namespace StoreLevel

/-- The key types from `K_NONODE` to `K_MAXNODE`. -/
def fenceTypes : List KeyTypeE :=
  [.kNoNode, .kInviteToken, .kEphemeralPublicKey, .kPeer, .kPeerPubKey, .kLocalAssoc, .kGlobalAssoc,
    .kValidationSession, .kTokenAuth, .kParAvion, .kMailSent, .kAccessKey, .kBlobStore, .kLogNode, .kMaxNode]

def putFence (db : DB) (keytype : KeyTypeE) : DB :=
  match db.get? (encodePrimaryKey keytype 0) with
  | some _ => db
  | none => db.put (encodePrimaryKey keytype 0) (.data .empty)

/-- Add the top fence for data. -/
@[irreducible] def putFences (db : DB) : DB := fenceTypes.foldl putFence db

/-- The identifier in the key just before the key type `next`, if that key is of type `last`. -/
def lastId (db : DB) (next last : KeyTypeE) (fixedMissing zeroMissing : String) : Except Exn (Option ℕ) :=
  match db.seek (encodeKeyType next) with
  | [] => .error (.initial fixedMissing)
  | _ :: _ =>
    match db.before (encodeKeyType next) with
    | none => .error (.initial zeroMissing)
    | some (key, _) =>
      if HasType last key then (decodePrimaryKey key).map fun (_, id) => some id
      else .ok none

/-- A key type and the one before it, in the order in which `Initialize` visits them. -/
def dataTypes : List (KeyTypeE × KeyTypeE) :=
  [(.kLogNode, .kBlobStore), (.kBlobStore, .kAccessKey), (.kAccessKey, .kMailSent), (.kMailSent, .kParAvion),
    (.kParAvion, .kTokenAuth), (.kTokenAuth, .kValidationSession), (.kValidationSession, .kGlobalAssoc),
    (.kGlobalAssoc, .kLocalAssoc), (.kLocalAssoc, .kPeerPubKey), (.kPeerPubKey, .kPeer),
    (.kPeer, .kEphemeralPublicKey), (.kEphemeralPublicKey, .kInviteToken), (.kInviteToken, .kNoNode)]

/-- The loop that raises `last_pkey` over the key types. -/
def lastPkey (db : DB) : ℕ → List (KeyTypeE × KeyTypeE) → Except Exn ℕ
  | last, [] => .ok last
  | last, (next, keytype) :: rest => do
    let id ← lastId db next keytype "Some fixed records missing" "Some zero records missing"
    lastPkey db (max last (id.getD 0)) rest

/-- Open a store: the fenced store and the counters `last_pkey` and `last_lkey`, raised. -/
def initializeStore (datadir : DB) (pkey lkey : ℕ) : Except Exn (DB × ℕ × ℕ) := do
  let db := putFences datadir
  let id ← lastId db .kMaxNode .kLogNode "Fixed record K_MAXNODE missing"
    "Zero record before K_MAXNODE missing"
  let pkey ← lastPkey db pkey dataTypes
  return (db, pkey, max lkey (id.getD 0))

end StoreLevel

/-- Fill the cache from the stored associations. -/
def fillCache (db : DB) : Except Exn StoreCache.AssocMap :=
  localAssocTable.scanTable db 0 (2 ^ 64 - 1)
    (fun cache record => cache.put (StoreCache.mediumAddress record) (.localAssoc record)) .empty

/-- The log store of the build that has one raises the same counters further. -/
def openLog (logdb : Option DB) (pkey lkey : ℕ) : Except Exn (Option DB × ℕ) :=
  match logdb with
  | none => .ok (none, lkey)
  | some logdb => do
    let (logdb, _, lkey) ← StoreLevel.initializeStore logdb pkey lkey
    return (some logdb, lkey)

/-- The cache of a node that uses one. -/
def populateCache (st : SharedTable) (maindb : DB) : Except Exn StoreCache.AssocMap :=
  if st.lookupUsesLocal then fillCache maindb else .ok st.dbcache

/-- `WorkServer::init` on the stores as they are on disk. -/
def workServerInit (st : SharedTable) : Except Exn SharedTable := do
  let (maindb, pkey, lkey) ← StoreLevel.initializeStore st.maindb 0 0
  let (logdb, lkey) ← openLog st.logdb pkey lkey
  let dbcache ← populateCache st maindb
  return { st with
    maindb := maindb
    logdb := logdb
    maincounter := if 0 < pkey then pkey else 1
    logcounter := if 0 < lkey then lkey else 1
    dbcache := dbcache }

end Identt
