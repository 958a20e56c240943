import Identt.Hrpc.AssocPairs
import Identt.Store.CacheRuns
import Identt.Store.LookupService

/-! # Lookups in the cache and in the index

A master may answer lookups from its cache of local associations or from the index of the published ones.
Associations come in pairs, and a binding writes the cache whenever its items can be followed; so the two
answers differ only where the index, read by leading text, comes upon an association of another address
first.
-/

namespace Identt.Hrpc

open Store Query ReadM StoreTrans StoreCache ValidateService ThreePidService LookupService

/-- The joined medium and address that a lookup searches for. -/
def queryText (query : LookupQueryT) : Bytes := joinParts [.strn query.medium, .strn query.address]

/-- The joined medium and address of a published association, and the text under which it is indexed. -/
def joinedText (published : GlobalAssocT) : Bytes := joinParts [.strn published.medium, .strn published.address]

def publishedText (published : GlobalAssocT) : Bytes := NonUniqueIndex.globalAssocMediumAddress.indexText published

/-- The first published association, in the order of the index, that is indexed under a text which begins with
the query's joined medium and address has the very same ones. -/
def FirstIsOwn (world : World) (query : LookupQueryT) : Prop :=
  ∀ n published, world .globalAssoc n = some published → queryText query <+: publishedText published →
    (∀ m other, world .globalAssoc m = some other → queryText query <+: publishedText other →
      publishedText published ≤ publishedText other) → joinedText published = queryText query

/-- The two lookups fill in the same result. -/
def LookupsAgree (st : SharedTable) (query : LookupQueryT) : Prop :=
  lookupGlobal st query {} = .ok (lookupLocal st query {})

/-- A request does not bind an address for the first time if the key of its association looks primary but
cannot be decoded. -/
def Cacheable (st : SharedTable) (label : ServeStep) : Prop :=
  ∀ data sid session, label.1 = .bind3pid data → label.2.commit.logPut = true → label.2.commit.dataWrite = true →
    Usable (worldOf st.maindb) data.subtok sid session →
    (∀ n (assoc : LocalAssocT), worldOf st.maindb .localAssoc n = some assoc →
      ¬ (assoc.medium = session.medium ∧ assoc.address = session.address)) →
    Cachable [⟨mediumAddress { medium := session.medium, address := session.address }, .empty, false⟩]

section Bound

variable {world : World} {env : ActionEnv} {mxid : Bytes} {session : ValidationSessionT} {found : Bool}
  {localassoc : LocalAssocT} {counter id taken : ℕ}

/-- A binding keeps the key of the association it updates, and no other association has it. -/
theorem bound_key {db : DB} (represents : RepresentsAll db world)
    (looked : LookedUp localAssocTable (world .localAssoc) .uLocalAssocMediumAddress
      { medium := session.medium, address := session.address } (found, localassoc))
    (takes : Gives (takeId found localassoc.id) counter id taken) (free : found = false → world .localAssoc id = none)
    {m : ℕ} {other : LocalAssocT} (has : world .localAssoc m = some other) :
    mediumAddress other = mediumAddress (boundLocal env mxid id localassoc) ↔ m = id := by
  obtain ⟨rfl, -⟩ := gives_takeId.mp takes
  change localAssocTable.getKey other .uLocalAssocMediumAddress false =
    localAssocTable.getKey localassoc .uLocalAssocMediumAddress false ↔ _
  have representsLocal : localAssocTable.Represents db (world .localAssoc) := represents .localAssoc
  cases looked with
  | found n localassoc stored same =>
    have number : localassoc.id = n := representsLocal.id_eq n localassoc stored
    rw [if_pos rfl, number]
    exact representsLocal.unique_iff (List.mem_singleton_self _) has stored
  | absent none =>
    refine ⟨fun same => (none m other has same).elim, ?_⟩
    rintro rfl
    rw [free rfl] at has
    contradiction

/-- The items of the association of a binding are followed, unless it is new and its key cannot be decoded. -/
theorem follows_bound {db : DB} (represents : RepresentsAll db world)
    (looked : LookedUp localAssocTable (world .localAssoc) .uLocalAssocMediumAddress
      { medium := session.medium, address := session.address } (found, localassoc))
    (takes : Gives (takeId found localassoc.id) counter id taken) (free : found = false → world .localAssoc id = none)
    (cacheable : (∀ n (assoc : LocalAssocT), world .localAssoc n = some assoc →
        ¬ (assoc.medium = session.medium ∧ assoc.address = session.address)) →
      Cachable [⟨mediumAddress { medium := session.medium, address := session.address }, .empty, false⟩]) :
    Follows (localAssocTable.recordItems (world .localAssoc id) (boundLocal env mxid id localassoc)) := by
  obtain ⟨rfl, -⟩ := gives_takeId.mp takes
  have representsLocal : localAssocTable.Represents db (world .localAssoc) := represents .localAssoc
  cases looked with
  | found n localassoc stored same =>
    have number : localassoc.id = n := representsLocal.id_eq n localassoc stored
    rw [if_pos rfl, number, stored, StoreTable.recordItems_of_same_keys _ fun keytype member => by
      rw [List.mem_singleton.mp member]
      rfl]
    exact ⟨fun later => by simp at later, trivial⟩
  | absent none =>
    rw [free rfl]
    have decodes := cacheable fun n assoc has ⟨medium, address⟩ => none n assoc has (by
      simp only [localAssocTable, LocalAssocT.getKey, medium, address])
    refine ⟨fun _ item member => ?_, fun later => by simp at later, trivial⟩
    rw [List.mem_singleton.mp member]
    exact decodes ⟨mediumAddress { medium := session.medium, address := session.address }, .empty, false⟩
      (List.mem_singleton_self _)

/-- The cache follows such items in front of those of other tables. -/
theorem addToCache_bound {assoc : LocalAssocT} (word : assoc.id < 2 ^ 64)
    (follows : Follows (localAssocTable.recordItems (world .localAssoc assoc.id) assoc)) {rest : List TableOp}
    (others : ∀ op ∈ rest, op.name ≠ .localAssoc) (cache : AssocMap) :
    (addToCache cache ((TableOp.add .localAssoc assoc :: rest).flatMap (TableOp.items world))).2 =
      cache.put (mediumAddress assoc) (.localAssoc assoc) := by
  have other : ∀ item ∈ rest.flatMap (TableOp.items world), Typed item ∧ ¬ HasType .kLocalAssoc item.key := by
    intro item member
    obtain ⟨op, inRest, inItems⟩ := List.mem_flatMap.mp member
    exact items_other (others op inRest) inItems
  rw [List.flatMap_cons]
  change (addToCache cache (localAssocTable.recordItems (world .localAssoc assoc.id) assoc ++
    rest.flatMap (TableOp.items world))).2 = _
  rw [addToCache_eq, follow_append, follow_of_other fun item member => (other item member).2, follow_recordItems]
  · intro item member
    rcases List.mem_append.mp member with ofAssoc | inRest
    · exact typed_recordItems word ofAssoc
    · exact (other item inRest).1
  · exact follows.append fun item member => (other item member).2

end Bound

/-- What a request does to the table of local associations, and the cache makes of its transaction. -/
theorem Writes.mirrors {db : DB} {world : World} (represents : RepresentsAll db world) {hostname : Bytes}
    {env : ActionEnv} {counter counter' : ℕ} {request : MasterRequest} {ops : List TableOp}
    (writes : Writes world hostname env counter request ops counter') (numbered : Numbered world counter)
    (small : counter' < 2 ^ 64)
    (cacheable : ∀ data sid session, request = .bind3pid data → Usable world data.subtok sid session →
      (∀ n (assoc : LocalAssocT), world .localAssoc n = some assoc →
        ¬ (assoc.medium = session.medium ∧ assoc.address = session.address)) →
      Cachable [⟨mediumAddress { medium := session.medium, address := session.address }, .empty, false⟩])
    {cache : AssocMap} (mirrors : cache.Mirrors (world .localAssoc) mediumAddress Value.localAssoc) :
    (addToCache cache (ops.flatMap (TableOp.items world))).2.Mirrors (ops.foldl TableOp.apply world .localAssoc)
      mediumAddress Value.localAssoc := by
  have passed := writes.passed represents numbered
  have frame := Writes.frame .localAssoc writes
  have others (notBound : TableName.localAssoc ∉ request.tables) :
      (addToCache cache (ops.flatMap (TableOp.items world))).2 = cache := by
    have other : ∀ item ∈ ops.flatMap (TableOp.items world), Typed item ∧ ¬ HasType .kLocalAssoc item.key := by
      intro item member
      obtain ⟨op, inOps, inItems⟩ := List.mem_flatMap.mp member
      exact items_other (fun same => notBound (same ▸ writes.name_mem inOps)) inItems
    rw [addToCache_eq (fun item member => (other item member).1) (follows_of_other fun item member =>
      (other item member).2), follow_of_other fun item member => (other item member).2]
  cases writes with
  | @bind3pid data sid session localFound globalFound localassoc globalassoc tokens tosign output localId
      localTaken globalId globalTaken usable localLooked localTakes localFree globalLooked globalTakes globalFree
      stored =>
    have key {m : ℕ} {other : LocalAssocT} := @bound_key world env data.subtok.mxid session _ _ _ _ _ db represents
      localLooked localTakes localFree m other
    have follows := @follows_bound world env data.subtok.mxid session _ _ _ _ _ db represents localLooked localTakes
      localFree (cacheable data sid session rfl usable)
    have word : (boundLocal env data.subtok.mxid localId localassoc).id < 2 ^ 64 :=
      lt_of_le_of_lt (passed (.add .localAssoc _) (List.mem_cons_self ..)) small
    have after := (foldl_bind world (boundLocal env data.subtok.mxid localId localassoc)
      { boundGlobal env session data.subtok.mxid globalId globalassoc with sgAssoc := tosign } tokens env.currtime
      (bindMail (globalTaken + 1) session data.subtok.mxid output)).1
    rw [List.append_assoc, List.cons_append] at after ⊢
    rw [addToCache_bound word follows]
    · rw [after]
      exact mirrors.put (fun old has => (key has).mpr rfl) fun m other has same => (key has).mp same
    · intro op member
      simp only [List.cons_append, List.nil_append, List.mem_cons, List.mem_append, List.mem_map, List.not_mem_nil,
        or_false] at member
      rcases member with rfl | ⟨token, _, rfl⟩ | rfl <;> simp [TableOp.name]
  | requestToken | submitToken | storeInvite | pending | getAccessKey | setBlobData =>
    rw [others (by simp [MasterRequest.tables]), frame (by simp [MasterRequest.tables])]
    exact mirrors

/-- What holds of a master that looks up in its cache, as long as it can keep up. -/
structure Mirrored (st : SharedTable) : Prop where
  consistent : Consistent st
  uses : st.lookupUsesLocal = true
  sessions : ∀ n session, worldOf st.maindb .validationSession n = some session →
    session.medium ≠ [] ∧ fmtSep ∉ session.medium
  assocs : ∀ n assoc, worldOf st.maindb .localAssoc n = some assoc → assoc.medium ≠ [] ∧ fmtSep ∉ assoc.medium
  paired : Paired (worldOf st.maindb) st.hostname
  mirrors : st.maincounter < 2 ^ 64 →
    st.dbcache.Mirrors (worldOf st.maindb .localAssoc) mediumAddress Value.localAssoc

theorem medium_of_populated {reqtok : RequestTokenT} {medium address : Bytes}
    (populated : populateAddress reqtok medium = .ok address) : medium ≠ [] ∧ fmtSep ∉ medium := by
  refine ⟨?_, plain_of_populated populated⟩
  rintro rfl
  have notEmail : ([] : Bytes) ≠ ascii "email" := by decide
  have notMsisdn : ([] : Bytes) ≠ ascii "msisdn" := by decide
  rw [populateAddress, if_neg notEmail, if_neg notMsisdn] at populated
  contradiction

/-- A request keeps the cache a mirror of the local associations. -/
theorem Mirrored.mirrors_step {st : SharedTable} (mirrored : Mirrored st) {label : ServeStep}
    (cacheable : Cacheable st label) (small : (serveStep st label).maincounter < 2 ^ 64) :
    (serveStep st label).dbcache.Mirrors (worldOf (serveStep st label).maindb .localAssoc) mediumAddress
      Value.localAssoc := by
  have invariant := mirrored.consistent.invariant
  obtain ⟨counter, grows, same | ⟨transaction, ops, writes, built, after⟩⟩ := serve_outcome invariant label.1 label.2
  · rw [serveStep, same] at small ⊢
    exact mirrored.mirrors (grows.trans_lt small)
  · rw [serveStep, after, commit_maincounter] at small
    have represents := commit_represents { st with maincounter := counter } invariant built label.2.commit true
    rw [serveStep, after, commit_dbcache, ← represents.world_eq]
    change st.maincounter ≤ counter at grows
    have now := mirrored.mirrors (grows.trans_lt small)
    by_cases written : (label.2.commit.logPut && label.2.commit.dataWrite) = true
    · obtain ⟨logged, wrote⟩ := (Bool.and_eq_true _ _).mp written
      rw [if_pos written, if_pos (by simp [logged, wrote, mirrored.uses]), built.items]
      exact writes.mirrors invariant mirrored.consistent.numbered small
        (fun data sid session isBind usable new => cacheable data sid session isBind logged wrote usable new) now
    · rw [if_neg written, if_neg (by simp_all)]
      exact now

theorem Mirrored.step {st : SharedTable} (mirrored : Mirrored st) {label : ServeStep}
    (cacheable : Cacheable st label) : Mirrored (serveStep st label) := by
  have invariant := mirrored.consistent.invariant
  refine ⟨mirrored.consistent.serve label.1 label.2, ?_, fun n session has => ?_, fun n assoc has => ?_, ?_,
    mirrored.mirrors_step cacheable⟩
  · exact (serve_lookupUsesLocal invariant label.1 label.2).trans mirrored.uses
  · exact serve_sessionMedium (P := fun medium => medium ≠ [] ∧ fmtSep ∉ medium) invariant label
      (fun _ _ _ => medium_of_populated) (mirrored.sessions n) has
  · exact serve_assocMedium (P := fun medium => medium ≠ [] ∧ fmtSep ∉ medium) invariant label mirrored.sessions
      mirrored.assocs has
  · rw [serveStep, serve_hostname]
    obtain ⟨_, same | ⟨ops, writes, _, _, represents⟩⟩ := serve_cases invariant label.1 label.2
    · rw [← same.world_eq]
      exact mirrored.paired
    · rw [← represents.world_eq]
      exact mirrored.paired.step invariant (fun n session has => (mirrored.sessions n session has).2)
        (fun n assoc has => (mirrored.assocs n assoc has).2) writes

theorem EmptyStore.mirrored {start : SharedTable} (empty : EmptyStore start) (uses : start.lookupUsesLocal = true)
    (filled : fillCache start.maindb = .ok start.dbcache) : Mirrored start := by
  refine ⟨empty.consistent, uses, fun n session has => (empty.nothing .validationSession n session has).elim,
    fun n assoc has => (empty.nothing .localAssoc n assoc has).elim,
    ⟨fun n assoc has => (empty.nothing .localAssoc n assoc has).elim,
      fun n assoc has => (empty.nothing .globalAssoc n assoc has).elim⟩, fun _ => ?_⟩
  have represents : localAssocTable.Represents start.maindb (worldOf start.maindb .localAssoc) :=
    empty.consistent.invariant .localAssoc
  obtain ⟨cache, isFilled, exact⟩ := fillCache_exact represents
    fun n assoc has => (empty.nothing .localAssoc n assoc has).elim
  obtain rfl : cache = start.dbcache := Except.ok.inj (isFilled.symm.trans filled)
  exact exact

/-- What a lookup answers from a published association. -/
def answerOf (published : GlobalAssocT) : LookupResultT where
  medium := published.medium
  address := published.address
  mxid := published.mxid
  ts := published.ts
  notBefore := published.notBefore
  notAfter := published.notAfter

/-- A lookup in the index that finds no entry leaves the result as it is. -/
theorem lookupGlobal_of_none {st : SharedTable} {query : LookupQueryT} {found : Bool}
    (call : globalAssocTable.getMany st.maindb { medium := query.medium, address := query.address } .empty
      .iGlobalAssocMediumAddress 0 1 = .ok (found, .empty)) (result : LookupResultT) :
    lookupGlobal st query result = .ok result := by
  rw [lookupGlobal, call]
  cases found <;> rfl

theorem lookupGlobal_of_first {st : SharedTable} {query : LookupQueryT} {n : ℕ} {published : GlobalAssocT}
    (call : globalAssocTable.getMany st.maindb { medium := query.medium, address := query.address } .empty
      .iGlobalAssocMediumAddress 0 1 = .ok (true, OrderedMap.empty.put n published)) (result : LookupResultT) :
    lookupGlobal st query result = .ok (answerOf published) := by
  rw [lookupGlobal, call]
  rfl

/-- The lookup in the index answers from the first association that is indexed under a text which begins with
the query's joined medium and address. -/
theorem lookupGlobal_cases {st : SharedTable} (invariant : TableInvariant st.maindb) (query : LookupQueryT)
    (result : LookupResultT) :
    (lookupGlobal st query result = .ok result ∧ ∀ n published, worldOf st.maindb .globalAssoc n = some published →
      ¬ queryText query <+: publishedText published) ∨
    ∃ n published, worldOf st.maindb .globalAssoc n = some published ∧
      queryText query <+: publishedText published ∧
      (∀ m other, worldOf st.maindb .globalAssoc m = some other → queryText query <+: publishedText other →
        publishedText published ≤ publishedText other) ∧
      lookupGlobal st query result = .ok (answerOf published) := by
  have nonempty : queryText query ≠ [] := fun empty => NonUniqueIndex.joinParts_pair_ne_nil _ _ empty
  have refer : NonUniqueIndex.globalAssocMediumAddress.referText
      { medium := query.medium, address := query.address } ≠ [] := nonempty
  rcases NonUniqueIndex.getMany_first invariant refer with ⟨found, call, nobody⟩ | ⟨n, published, has, begins, first, call⟩
  · left
    exact ⟨lookupGlobal_of_none call result, nobody⟩
  · right
    exact ⟨n, published, has, begins, first, lookupGlobal_of_first call result⟩

/-- The lookup in the cache answers from the local association for the query's joined medium and address. -/
theorem lookupLocal_cases {st : SharedTable} (mirrored : Mirrored st) (small : st.maincounter < 2 ^ 64)
    (query : LookupQueryT) (result : LookupResultT) :
    (lookupLocal st query result = result ∧ ∀ n published, worldOf st.maindb .globalAssoc n = some published →
      joinedText published ≠ queryText query) ∨
    ∃ n published, worldOf st.maindb .globalAssoc n = some published ∧ joinedText published = queryText query ∧
      lookupLocal st query result = answerOf published := by
  have mirrors := mirrored.mirrors small
  have sameKey {assoc : LocalAssocT} {published : GlobalAssocT} (publishes : Publishes st.hostname assoc published) :
      mediumAddress assoc = encodeSecondaryKey .uLocalAssocMediumAddress [.strn query.medium, .strn query.address] ↔
        joinedText published = queryText query := by
    rw [joinedText, publishes.medium, publishes.address]
    exact List.append_right_inj _
  cases cached : st.dbcache.get?
      (encodeSecondaryKey .uLocalAssocMediumAddress [.strn query.medium, .strn query.address]) with
  | none =>
    left
    rw [lookupLocal, cached]
    refine ⟨rfl, fun n published has own => ?_⟩
    obtain ⟨m, assoc, hasAssoc, publishes⟩ := mirrored.paired.origin n published has
    have present := mirrors.get?_eq_some hasAssoc
    rw [(sameKey publishes).mpr own, cached] at present
    contradiction
  | some data =>
    right
    obtain ⟨m, assoc, hasAssoc, key, rfl⟩ := (mirrors _ _).mp cached
    obtain ⟨n, published, has, publishes⟩ := mirrored.paired.published m assoc hasAssoc
    refine ⟨n, published, has, (sameKey publishes).mp key, ?_⟩
    rw [lookupLocal, cached, answerOf, publishes.medium, publishes.address, publishes.mxid, publishes.ts,
      publishes.notBefore, publishes.notAfter]
    rfl

/-- The text under which an association is indexed tells its joined medium and address. -/
theorem publishedText_eq (published : GlobalAssocT) :
    publishedText published = joinedText published ++ fmtSep :: KeyPart.format (.uint published.id) :=
  joinParts_concat (List.cons_ne_nil _ _) _

theorem joinedText_eq_of_publishedText {left right : GlobalAssocT} (same : publishedText left = publishedText right) :
    joinedText left = joinedText right := by
  rw [publishedText_eq, publishedText_eq] at same
  exact (eq_of_append_sep (fmtSep_notMem_hex _ _) (fmtSep_notMem_hex _ _) same).1

/-- Published associations with one joined medium and address answer alike. -/
theorem Mirrored.answer_unique {st : SharedTable} (mirrored : Mirrored st) {m n : ℕ} {left right : GlobalAssocT}
    (hasLeft : worldOf st.maindb .globalAssoc m = some left)
    (hasRight : worldOf st.maindb .globalAssoc n = some right) (same : joinedText left = joinedText right) :
    answerOf left = answerOf right := by
  have locals : localAssocTable.Represents _ (worldOf st.maindb .localAssoc) :=
    mirrored.consistent.invariant .localAssoc
  obtain ⟨i, assoc, hasAssoc, publishes⟩ := mirrored.paired.origin m left hasLeft
  obtain ⟨j, assoc', hasAssoc', publishes'⟩ := mirrored.paired.origin n right hasRight
  have sameKey : mediumAddress assoc = mediumAddress assoc' := by
    rw [joinedText, joinedText, publishes.medium, publishes.address, publishes'.medium, publishes'.address] at same
    exact (List.append_right_inj _).mpr same
  obtain rfl : i = j := locals.unique (List.mem_singleton_self _) hasAssoc hasAssoc' sameKey
  obtain rfl := Option.some.inj (hasAssoc.symm.trans hasAssoc')
  rw [answerOf, answerOf, publishes.medium, publishes.address, publishes.mxid, publishes.ts, publishes.notBefore,
    publishes.notAfter, publishes'.medium, publishes'.address, publishes'.mxid, publishes'.ts, publishes'.notBefore,
    publishes'.notAfter]

/-- A cache that mirrors the local associations answers as the index does, exactly if the first association in
the index is the query's own. -/
theorem Mirrored.agree_iff {st : SharedTable} (mirrored : Mirrored st) (small : st.maincounter < 2 ^ 64)
    (query : LookupQueryT) : LookupsAgree st query ↔ FirstIsOwn (worldOf st.maindb) query := by
  rw [LookupsAgree]
  have own {published : GlobalAssocT} (same : joinedText published = queryText query) :
      queryText query <+: publishedText published := by
    rw [publishedText_eq, same]
    exact List.prefix_append ..
  rcases lookupGlobal_cases mirrored.consistent.invariant query {} with
    ⟨global, nothing⟩ | ⟨n, published, has, begins, first, global⟩
  · rw [global]
    rcases lookupLocal_cases mirrored small query {} with ⟨locally, _⟩ | ⟨m, other, hasOther, ownOther, _⟩
    · rw [locally]
      exact ⟨fun _ n published has begins _ => (nothing n published has begins).elim, fun _ => rfl⟩
    · exact (nothing m other hasOther (own ownOther)).elim
  · rw [global, Except.ok.injEq]
    -- the first association is determined by its text
    have firstOwn : FirstIsOwn (worldOf st.maindb) query ↔ joinedText published = queryText query := by
      constructor
      · intro isOwn
        exact isOwn n published has begins first
      · intro same m other hasOther beginsOther firstOther
        rw [← same]
        exact joinedText_eq_of_publishedText
          (le_antisymm (firstOther n published has begins) (first m other hasOther beginsOther))
    rw [firstOwn]
    rcases lookupLocal_cases mirrored small query {} with ⟨locally, nobody⟩ | ⟨m, other, hasOther, ownOther, locally⟩
    · rw [locally]
      constructor
      · intro same
        obtain ⟨k, assoc, hasAssoc, publishes⟩ := mirrored.paired.origin n published has
        have medium : published.medium = [] := congrArg LookupResultT.medium same
        exact ((mirrored.assocs k assoc hasAssoc).1 (publishes.medium.symm.trans medium)).elim
      · exact fun same => (nobody n published has same).elim
    · rw [locally]
      constructor
      · intro same
        have medium : published.medium = other.medium := congrArg LookupResultT.medium same
        have address : published.address = other.address := congrArg LookupResultT.address same
        rw [← ownOther, joinedText, joinedText, medium, address]
      · intro same
        exact mirrored.answer_unique has hasOther (same.trans ownOther.symm)

/-- Where the two lookups agree, it does not matter which of them the master is set to use. -/
theorem lookupAction_eq_of_agree {st : SharedTable} {query : LookupQueryT} (agree : LookupsAgree st query) :
    lookupAction { st with lookupUsesLocal := true } { query := query } =
      lookupAction { st with lookupUsesLocal := false } { query := query } := by
  have global : lookupGlobal { st with lookupUsesLocal := false } query {} = .ok (lookupLocal st query {}) := agree
  simp only [lookupAction, if_true, Bool.false_eq_true, if_false, global]
  rfl

/-- In every run of requests on a master that has looked up in its cache since its store was empty, and whose
bindings could all be followed by the cache, the two lookups fill in the same result exactly for the queries
whose own association comes first among those that the index offers. -/
theorem lookups_agree_iff {start : SharedTable} (empty : EmptyStore start) (uses : start.lookupUsesLocal = true)
    (filled : fillCache start.maindb = .ok start.dbcache) {labels : List ServeStep}
    (guarded : Run.Guarded serveStep Cacheable start labels)
    (small : (Run.final serveStep start labels).maincounter < 2 ^ 64) (query : LookupQueryT) :
    LookupsAgree (Run.final serveStep start labels) query ↔
      FirstIsOwn (worldOf (Run.final serveStep start labels).maindb) query := by
  have mirrored := @Run.invariant_of_guarded _ _ serveStep Mirrored Cacheable
    (fun st label mirrored cacheable => mirrored.step cacheable) start (empty.mirrored uses filled) labels guarded
    labels.length
  rw [List.take_length] at mirrored
  exact mirrored.agree_iff small query

/-- A master on an empty store that looks up in its cache. -/
def cachingMaster : SharedTable := { emptyMaster with lookupUsesLocal := true }

/-- An address that begins the bound one. -/
def shorterQuery : LookupQueryT where
  medium := ascii "email"
  address := ascii "a@x.co"

/-- The index offers the association of `a@x.com` for `a@x.co`. -/
theorem validateAndBind_not_agree : EmptyStore cachingMaster ∧ cachingMaster.lookupUsesLocal = true ∧
    fillCache cachingMaster.maindb = .ok cachingMaster.dbcache ∧
    ¬ LookupsAgree (Run.final serveStep cachingMaster validateAndBind) shorterQuery := by
  refine ⟨rfl, rfl, fillCache_cachingNode, fun agree => ?_⟩
  have global : (lookupGlobal (Run.final serveStep cachingMaster validateAndBind) shorterQuery {}).toOption.map
      LookupResultT.address = some (ascii "a@x.com") := by decide +kernel
  have locally : lookupLocal (Run.final serveStep cachingMaster validateAndBind) shorterQuery {} = {} := by
    decide +kernel
  rw [agree, locally] at global
  revert global
  decide

theorem lookups_agree_iff_validateAndBind :
    LookupsAgree (Run.final serveStep cachingMaster validateAndBind)
        { medium := ascii "email", address := ascii "a@x.com" } ↔
      FirstIsOwn (worldOf (Run.final serveStep cachingMaster validateAndBind).maindb)
        { medium := ascii "email", address := ascii "a@x.com" } := by
  have guarded : Run.Guarded serveStep Cacheable cachingMaster validateAndBind := by
    refine Run.guarded_cons.mpr ⟨nofun, Run.guarded_cons.mpr ⟨nofun, Run.guarded_cons.mpr ⟨?_, nofun⟩⟩⟩
    intro data sid session isBind _ _ usable _
    obtain rfl := MasterRequest.bind3pid.inj isBind
    have number : stoul (ascii "2") = .ok 2 := by decide
    obtain rfl : 2 = sid := Except.ok.inj (number.symm.trans usable.parsed)
    have stored : (worldOf (serveStep (serveStep cachingMaster validateAndBind[0]) validateAndBind[1]).maindb
        .validationSession 2).map (fun session => (session.medium, session.address)) =
          some (ascii "email", ascii "a@x.com") := by decide +kernel
    obtain ⟨known, has, fields⟩ := Option.map_eq_some_iff.mp stored
    obtain rfl := Option.some.inj (has.symm.trans usable.has)
    simp only [Prod.mk.injEq] at fields
    rw [fields.1, fields.2]
    decide +kernel
  have small : (Run.final serveStep cachingMaster validateAndBind).maincounter < 2 ^ 64 := by decide +kernel
  exact @lookups_agree_iff cachingMaster rfl rfl fillCache_cachingNode validateAndBind guarded small _

end Identt.Hrpc
