import Identt.Store.Service

/-! # Looking addresses up (`LookupService`)

A lookup reads the published associations through their index, or this server's own ones through the
cache. Either way it fills in a result, or leaves it as it is. For a list of addresses the records are
first gathered by their identifiers, and then turned into results.
-/

namespace Identt.Store

open Query

namespace LookupService

/-- Get one anyway. -/
def lookupGlobal (st : SharedTable) (query : LookupQueryT) (result : LookupResultT) : Except Exn LookupResultT := do
  let (found, assocMap) ← globalAssocTable.getMany st.maindb
    { medium := query.medium, address := query.address } .empty .iGlobalAssocMediumAddress 0 1
  match found, assocMap.entries with
  | true, (_, globalassoc) :: _ =>
    return {
      medium := globalassoc.medium
      address := globalassoc.address
      mxid := globalassoc.mxid
      ts := globalassoc.ts
      notBefore := globalassoc.notBefore
      notAfter := globalassoc.notAfter }
  | _, _ => return result

def lookupLocal (st : SharedTable) (query : LookupQueryT) (result : LookupResultT) : LookupResultT :=
  match st.dbcache.get? (encodeSecondaryKey .uLocalAssocMediumAddress [.strn query.medium, .strn query.address]) with
  | none => result
  | some data =>
    match LocalAssocT.parse data with
    | none => result
    | some localassoc =>
      { medium := localassoc.medium
        address := localassoc.address
        mxid := localassoc.mxid
        ts := localassoc.ts
        notBefore := localassoc.notBefore
        notAfter := localassoc.notAfter }

def lookupAction (st : SharedTable) (lact : LookupDataT) : Except Exn LookupDataT :=
  if st.lookupUsesLocal then .ok { lact with result := lookupLocal st lact.query lact.result }
  else (lookupGlobal st lact.query lact.result).map fun result => { lact with result := result }

/-- What is answered for a published association. -/
def globalResult (globalassoc : GlobalAssocT) : LookupResultT where
  medium := globalassoc.medium
  address := globalassoc.address
  mxid := globalassoc.mxid
  ts := globalassoc.ts
  notBefore := globalassoc.notBefore
  notAfter := globalassoc.notAfter

/-- What is answered for an association of this server. -/
def localResult (localassoc : LocalAssocT) : LookupResultT where
  medium := localassoc.medium
  address := localassoc.address
  mxid := localassoc.mxid
  ts := localassoc.ts
  notBefore := localassoc.notBefore
  notAfter := localassoc.notAfter

/-- A result is added if it names a user. -/
def addResult (result : BulkLookupResultT) (oneResult : LookupResultT) : BulkLookupResultT :=
  if 0 < oneResult.mxid.length then { threepids := result.threepids ++ [oneResult] } else result

/-- The part of the query between two indices, the last one included, if there is one. -/
def window (query : BulkLookupQueryT) (start last : ℕ) : Option (List LookupQueryT) :=
  let total := query.threepids.length
  if total ≤ start ∨ total ≤ last ∨ last < start then none
  else some ((query.threepids.drop start).take (last + 1 - start))

def gatherGlobal (db : DB) (assocMap : OrderedMap ℕ GlobalAssocT) (query : LookupQueryT) :
    Except Exn (OrderedMap ℕ GlobalAssocT) := do
  let (_, assocMap) ← globalAssocTable.getMany db { medium := query.medium, address := query.address } assocMap
    .iGlobalAssocMediumAddress 0 1
  return assocMap

def bulkLookupGlobal (st : SharedTable) (blact : BulkLookupDataT) (start last : ℕ) : Except Exn BulkLookupDataT :=
  match window blact.query start last with
  | none => .ok blact
  | some threepids => do
    let assocMap ← threepids.foldlM (gatherGlobal st.maindb) .empty
    return { blact with
      result := assocMap.entries.foldl (fun result entry => addResult result (globalResult entry.2)) blact.result }

def gatherLocal (cache : StoreCache.AssocMap) (assocMap : OrderedMap ℕ LocalAssocT) (query : LookupQueryT) :
    OrderedMap ℕ LocalAssocT :=
  match cache.get? (encodeSecondaryKey .uLocalAssocMediumAddress [.strn query.medium, .strn query.address]) with
  | none => assocMap
  | some data =>
    match LocalAssocT.parse data with
    | none => assocMap
    | some localassoc => assocMap.put localassoc.id localassoc

def bulkLookupLocal (st : SharedTable) (blact : BulkLookupDataT) (start last : ℕ) : BulkLookupDataT :=
  match window blact.query start last with
  | none => blact
  | some threepids =>
    let assocMap := threepids.foldl (gatherLocal st.dbcache) .empty
    { blact with
      result := assocMap.entries.foldl (fun result entry => addResult result (localResult entry.2)) blact.result }

/-- `s_size - 1`, which wraps around for an empty list. -/
def lastIndex (size : ℕ) : ℕ := if size = 0 then 2 ^ 64 - 1 else size - 1

def bulkLookupAction (st : SharedTable) (blact : BulkLookupDataT) : Except Exn BulkLookupDataT :=
  let last := lastIndex blact.query.threepids.length
  if st.lookupUsesLocal then .ok (bulkLookupLocal st blact 0 last) else bulkLookupGlobal st blact 0 last

end LookupService

end Identt.Store
