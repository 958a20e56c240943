import Identt.Store.ThreePidService

/-! # Access keys and the data stored under them (`BlobDataService`)

A validated session gets the access key of its address, which is made when it is first asked for.
Whoever presents the key may store data under a tag.
-/

namespace Identt.Store

open Query

namespace BlobDataService

def accessKeyReply (gva : GetAccessDataT) (accesskey : AccessKeyT) : GetAccessDataT :=
  { gva with
    accessblob := { gva.accessblob with
      accesskey := accesskey.medium ++ ascii ":" ++ accesskey.address ++ ascii ":" ++ accesskey.accesskey } }

/-- The key made for an address; its text keeps off the separator. -/
def newAccessKey (id : ℕ) (env : ActionEnv) (valsession : ValidationSessionT) : AccessKeyT where
  id := id
  medium := valsession.medium
  address := valsession.address
  accesskey := env.uuid.filter (· ≠ fmtSep)

def getAccessKeyAction (st : SharedTable) (env : ActionEnv) (gva : GetAccessDataT) :
    ReadM (Prepared GetAccessDataT) := do
  let valsession ← ThreePidService.checkSession st env gva.subtok
  let (found, accesskey) ← accessKeyTable.getOne st.maindb
    { medium := valsession.medium, address := valsession.address } .uAccessKeyMediumAddress
  if found then return ⟨none, fun _ => .ok (accessKeyReply gva accesskey)⟩
  else
    let id ← ReadM.getNext
    let accesskey := newAccessKey id env valsession
    let transaction ← accessKeyTable.insert st.maindb accesskey {} found "Cannot Insert accesskey"
    return ⟨some transaction, fun _ => .ok (accessKeyReply gva accesskey)⟩

/-- The stored access key that a presented one names and matches. -/
def presentedKey (st : SharedTable) (presented : Bytes) : Except Exn AccessKeyT := do
  match presented.splitOn fmtSep with
  | [medium, address, key] =>
    let (found, accesskey) ← accessKeyTable.getOne st.maindb { medium := medium, address := address }
      .uAccessKeyMediumAddress
    require (found = true) (.badData "Accesskey not found")
    require (accesskey.accesskey = key) (.badData "Accesskey mismatch")
    return accesskey
  | _ => throw (.badData "Bad Accesskey")

/-- What is stored under a key and a tag, with the data presented. -/
def storedBlob (accessblob : AccessBlobT) (id : ℕ) (blobstore : BlobStoreT) : BlobStoreT :=
  { blobstore with id := id, jsondata := accessblob.jsondata, textdata := accessblob.textdata }

def setBlobDataAction (st : SharedTable) (_env : ActionEnv) (bdata : SetBlobDataT) :
    ReadM (Prepared SetBlobDataT) := do
  let accessblob := bdata.accessblob
  let accesskey ← presentedKey st accessblob.accesskey
  let (found, blobstore) ← blobStoreTable.getOne st.maindb { keyid := accesskey.id, tag := accessblob.tag }
    .uBlobStoreKeyIdTag
  let id ← takeId found blobstore.id
  let blobstore := storedBlob accessblob id blobstore
  let transaction ← blobStoreTable.insert st.maindb blobstore {} found "Cannot Insert data"
  return ⟨some transaction, fun _ => .ok bdata⟩

def getBlobDataAction (st : SharedTable) (bdata : GetBlobDataT) : Except Exn GetBlobDataT := do
  let accessblob := bdata.accessblob
  let accesskey ← presentedKey st accessblob.accesskey
  let (found, blobstore) ← blobStoreTable.getOne st.maindb { keyid := accesskey.id, tag := accessblob.tag }
    .uBlobStoreKeyIdTag
  require (found = true) (.badData "Tag not found")
  return { bdata with
    accessblob := { accessblob with jsondata := blobstore.jsondata, textdata := blobstore.textdata } }

end BlobDataService

namespace AccessKeyService

/-- Verify the access key. -/
def verifyAccessKeyAction (st : SharedTable) (akey : Bytes) : Except Exn Unit := do
  let _ ← BlobDataService.presentedKey st akey

end AccessKeyService

end Identt.Store
