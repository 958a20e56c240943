import Identt.Hrpc.LookupAgreement

/-! # Lookups of many addresses at once

A lookup of a list gathers the records by their identifiers and then answers for each of them. This gives
what the single lookups give, because a record that is found twice is found with the same content, and
records with different identifiers are never for one address.
-/

namespace Identt.Hrpc

open Store Query ReadM StoreTrans StoreCache ThreePidService LookupService

/-- A lookup of a list answers, once each and in some order, what the lookups of its addresses answer, where
that is anything. -/
def BulkAgrees (st : SharedTable) (threepids : List LookupQueryT) : Prop :=
  ∃ answer : LookupQueryT → LookupResultT,
    (∀ query, lookupAction st { query := query } = .ok { query := query, result := answer query }) ∧
    ∃ results, bulkLookupAction st { query := { threepids := threepids } } =
        .ok { query := { threepids := threepids }, result := { threepids := results } } ∧
      results.Nodup ∧ ∀ one, one ∈ results ↔ one ≠ {} ∧ ∃ query ∈ threepids, answer query = one

section Gather

variable {τ : Type} {find : LookupQueryT → Option τ} {number : τ → ℕ} {answer : τ → LookupResultT}

/-- The records that are found, by their numbers. -/
def gathered (find : LookupQueryT → Option τ) (number : τ → ℕ) (threepids : List LookupQueryT) : OrderedMap ℕ τ :=
  (threepids.filterMap find).foldl (fun assocMap record => assocMap.put (number record) record) .empty

/-- Records that are found name a user, and can be told apart by their numbers and by what is answered for them. -/
structure Distinct (find : LookupQueryT → Option τ) (number : τ → ℕ) (answer : τ → LookupResultT) : Prop where
  named : ∀ query record, find query = some record → (answer record).mxid ≠ []
  by_number : ∀ query query' record record', find query = some record → find query' = some record' →
    number record = number record' → record = record'
  by_answer : ∀ query query' record record', find query = some record → find query' = some record' →
    answer record = answer record' → number record = number record'

/-- Results that name users are all added. -/
theorem foldl_addResult {results : List LookupResultT} (named : ∀ one ∈ results, one.mxid ≠ [])
    (result : BulkLookupResultT) :
    results.foldl addResult result = { threepids := result.threepids ++ results } := by
  induction results generalizing result with
  | nil => simp
  | cons one rest ih =>
    have isNamed := List.length_pos_iff.mpr (named one (List.mem_cons_self ..))
    rw [List.foldl_cons, ih fun later member => named later (List.mem_cons_of_mem _ member), addResult, if_pos isNamed]
    simp

/-- What is made of the records that were gathered. -/
theorem Distinct.results (distinct : Distinct find number answer) (threepids : List LookupQueryT) :
    ∃ results, (gathered find number threepids).entries.foldl (fun result entry => addResult result (answer entry.2)) {} =
        { threepids := results } ∧
      results.Nodup ∧ ∀ one, one ∈ results ↔ one ≠ {} ∧ ∃ query ∈ threepids, (find query).elim {} answer = one := by
  have entry (n : ℕ) (record : τ) : (n, record) ∈ (gathered find number threepids).entries ↔
      ∃ query ∈ threepids, find query = some record ∧ number record = n := by
    have agree : ∀ r ∈ threepids.filterMap find, ∀ r' ∈ threepids.filterMap find, number r = number r' → r = r' := by
      intro record member record' member' same
      obtain ⟨query, _, found⟩ := List.mem_filterMap.mp member
      obtain ⟨query', _, found'⟩ := List.mem_filterMap.mp member'
      exact distinct.by_number query query' record record' found found' same
    refine (@OrderedMap.mem_entries_foldl_put _ _ _ _ number id _ agree n record).trans ?_
    simp only [List.mem_filterMap, id_eq]
    constructor
    · rintro ⟨_, ⟨query, member, found⟩, here, rfl⟩
      exact ⟨query, member, found, here⟩
    · rintro ⟨query, member, found, here⟩
      exact ⟨record, ⟨query, member, found⟩, here, rfl⟩
  have member (one : LookupResultT) :
      one ∈ (gathered find number threepids).entries.map (fun entry => answer entry.2) ↔
        ∃ query ∈ threepids, ∃ record, find query = some record ∧ answer record = one := by
    rw [List.mem_map]
    constructor
    · rintro ⟨⟨n, record⟩, inMap, rfl⟩
      obtain ⟨query, inList, found, _⟩ := (entry n record).mp inMap
      exact ⟨query, inList, record, found, rfl⟩
    · rintro ⟨query, inList, record, found, rfl⟩
      exact ⟨(number record, record), (entry _ record).mpr ⟨query, inList, found, rfl⟩, rfl⟩
  have named (one : LookupResultT)
      (inResults : one ∈ (gathered find number threepids).entries.map (fun entry => answer entry.2)) : one.mxid ≠ [] := by
    obtain ⟨query, _, record, found, rfl⟩ := (member one).mp inResults
    exact distinct.named query record found
  refine ⟨_, (List.foldl_map ..).symm.trans (foldl_addResult named {}), ?_, fun one => ?_⟩
  · rw [List.nil_append]
    refine List.pairwise_map.mpr ((gathered find number threepids).sorted.imp_of_mem ?_)
    rintro ⟨m, left⟩ ⟨n, right⟩ inLeft inRight less same
    obtain ⟨query, _, found, rfl⟩ := (entry m left).mp inLeft
    obtain ⟨query', _, found', rfl⟩ := (entry n right).mp inRight
    exact less.ne (distinct.by_answer query query' left right found found' same)
  · rw [List.nil_append, member]
    constructor
    · rintro ⟨query, inList, record, found, rfl⟩
      refine ⟨fun empty => distinct.named query record found (by rw [empty]), query, inList, by rw [found]; rfl⟩
    · rintro ⟨nonempty, query, inList, rfl⟩
      cases found : find query with
      | none =>
        rw [found] at nonempty
        exact (nonempty rfl).elim
      | some record => exact ⟨query, inList, record, found, rfl⟩

end Gather

/-- The window over the whole list, which is left out if the list is empty. -/
theorem window_all (query : BulkLookupQueryT) :
    window query 0 (lastIndex query.threepids.length) = if query.threepids = [] then none else some query.threepids := by
  by_cases empty : query.threepids = []
  · rw [window, if_pos empty, empty, if_pos (.inl (Nat.le_refl _))]
  · have positive := List.length_pos_iff.mpr empty
    have last : lastIndex query.threepids.length = query.threepids.length - 1 := if_neg positive.ne'
    rw [window, last, if_neg empty, if_neg (by omega), List.drop_zero, Nat.sub_zero, Nat.sub_add_cancel positive,
      List.take_length]

section Modes

variable {st : SharedTable}

/-- The record in the cache that a lookup answers from. -/
def cachedFor (cache : AssocMap) (query : LookupQueryT) : Option LocalAssocT :=
  (cache.get? (encodeSecondaryKey .uLocalAssocMediumAddress [.strn query.medium, .strn query.address])).bind LocalAssocT.parse

theorem lookupLocal_eq (query : LookupQueryT) :
    lookupLocal st query {} = (cachedFor st.dbcache query).elim {} localResult := by
  rw [lookupLocal, cachedFor]
  cases st.dbcache.get? (encodeSecondaryKey .uLocalAssocMediumAddress [.strn query.medium, .strn query.address]) with
  | none => rfl
  | some data =>
    rw [Option.bind_some]
    simp only
    cases LocalAssocT.parse data <;> rfl

theorem foldl_gatherLocal (cache : AssocMap) (threepids : List LookupQueryT) :
    threepids.foldl (gatherLocal cache) .empty = gathered (cachedFor cache) LocalAssocT.id threepids := by
  rw [gathered, List.foldl_filterMap]
  congr 1
  funext assocMap query
  rw [gatherLocal, cachedFor]
  cases cache.get? (encodeSecondaryKey .uLocalAssocMediumAddress [.strn query.medium, .strn query.address]) with
  | none => rfl
  | some data =>
    rw [Option.bind_some]
    simp only
    cases LocalAssocT.parse data <;> rfl

theorem bulkAgrees_local (uses : st.lookupUsesLocal = true)
    (distinct : Distinct (cachedFor st.dbcache) LocalAssocT.id localResult) (threepids : List LookupQueryT) :
    BulkAgrees st threepids := by
  obtain ⟨results, folded, nodup, member⟩ := distinct.results threepids
  refine ⟨fun query => (cachedFor st.dbcache query).elim {} localResult, fun query => ?_, results, ?_, nodup, member⟩
  · rw [lookupAction, if_pos uses, lookupLocal_eq]
  · rw [bulkLookupAction, if_pos uses, bulkLookupLocal, window_all]
    by_cases empty : threepids = []
    · subst empty
      rw [if_pos rfl]
      have nothing : ({} : BulkLookupResultT) = { threepids := results } := folded
      rw [← nothing]
    · rw [if_neg empty]
      simp only [foldl_gatherLocal, folded]

/-- The published association that a lookup answers from, if there is one. -/
theorem published_found (invariant : TableInvariant st.maindb) (query : LookupQueryT) :
    ∃ found : Option GlobalAssocT,
      (∀ result, lookupGlobal st query result = .ok (found.elim result globalResult)) ∧
      (∀ assocMap, gatherGlobal st.maindb assocMap query =
        .ok (found.elim assocMap fun record => assocMap.put record.id record)) ∧
      ∀ record, found = some record → worldOf st.maindb .globalAssoc record.id = some record := by
  have refer : NonUniqueIndex.globalAssocMediumAddress.referText
      { medium := query.medium, address := query.address } ≠ [] := NonUniqueIndex.joinParts_pair_ne_nil _ _
  have gathers {found : Bool} {map : OrderedMap ℕ GlobalAssocT} (call : globalAssocTable.getMany st.maindb
      { medium := query.medium, address := query.address } .empty .iGlobalAssocMediumAddress 0 1 = .ok (found, map))
      (assocMap : OrderedMap ℕ GlobalAssocT) : ∃ map', gatherGlobal st.maindb assocMap query = .ok map' ∧
        ∀ n, map'.get? n = (map.get? n).or (assocMap.get? n) := by
    obtain ⟨map', onto, lookup⟩ := StoreTable.getMany_onto call assocMap
    exact ⟨map', by rw [gatherGlobal, onto]; rfl, lookup⟩
  rcases NonUniqueIndex.getMany_first invariant refer with ⟨found, call, _⟩ | ⟨n, record, has, _, _, call⟩
  · refine ⟨none, lookupGlobal_of_none call, fun assocMap => ?_, nofun⟩
    obtain ⟨map', gather, lookup⟩ := gathers call assocMap
    rw [gather, OrderedMap.ext_get? lookup]
    rfl
  · obtain rfl : record.id = n := (invariant .globalAssoc).id_eq n record has
    refine ⟨some record, lookupGlobal_of_first call, fun assocMap => ?_, fun other same => ?_⟩
    · obtain ⟨map', gather, lookup⟩ := gathers call assocMap
      rw [gather]
      refine congrArg Except.ok (OrderedMap.ext_get? fun m => ?_)
      rw [lookup m, Option.elim_some, OrderedMap.get?_put, OrderedMap.get?_put, OrderedMap.get?_empty]
      split <;> rfl
    · obtain rfl := Option.some.inj same
      exact has

theorem foldlM_gatherGlobal {find : LookupQueryT → Option GlobalAssocT}
    (gathers : ∀ query assocMap, gatherGlobal st.maindb assocMap query =
      .ok ((find query).elim assocMap fun record => assocMap.put record.id record)) (threepids : List LookupQueryT) :
    threepids.foldlM (gatherGlobal st.maindb) .empty = .ok (gathered find GlobalAssocT.id threepids) := by
  rw [gathered]
  generalize (OrderedMap.empty : OrderedMap ℕ GlobalAssocT) = assocMap
  induction threepids generalizing assocMap with
  | nil => rfl
  | cons query rest ih =>
    rw [List.foldlM_cons, gathers, List.filterMap_cons]
    cases find query with
    | none => exact ih assocMap
    | some record => exact ih (assocMap.put record.id record)

theorem bulkAgrees_global (invariant : TableInvariant st.maindb) (uses : st.lookupUsesLocal = false)
    (distinct : ∀ m n left right, worldOf st.maindb .globalAssoc m = some left →
      worldOf st.maindb .globalAssoc n = some right → globalResult left = globalResult right → m = n)
    (named : ∀ n record, worldOf st.maindb .globalAssoc n = some record → record.mxid ≠ [])
    (threepids : List LookupQueryT) : BulkAgrees st threepids := by
  choose find looks gathers stored using @published_found st invariant
  have apart : Distinct find GlobalAssocT.id globalResult := by
    refine ⟨fun query record found => named _ record (stored query record found),
      fun query query' record record' found found' same => ?_, fun query query' record record' found found' same => ?_⟩
    · have has := stored query record found
      rw [same, stored query' record' found'] at has
      exact (Option.some.inj has).symm
    · exact distinct _ _ record record' (stored query record found) (stored query' record' found') same
  obtain ⟨results, folded, nodup, member⟩ := apart.results threepids
  refine ⟨fun query => (find query).elim {} globalResult, fun query => ?_, results, ?_, nodup, member⟩
  · rw [lookupAction, uses, if_neg Bool.false_ne_true, looks]
    rfl
  · rw [bulkLookupAction, uses, if_neg Bool.false_ne_true, bulkLookupGlobal, window_all]
    by_cases empty : threepids = []
    · subst empty
      rw [if_pos rfl]
      have nothing : ({} : BulkLookupResultT) = { threepids := results } := folded
      rw [← nothing]
    · rw [if_neg empty]
      simp only [foldlM_gatherGlobal gathers, bind, Except.bind, folded]
      rfl

end Modes

/-- Every cached record lies under its own address, names a user, and is for the address of the association that
is stored under its number, which may be newer. -/
def CacheFits (cache : AssocMap) (world : World) : Prop :=
  ∀ k v, cache.get? k = some v → ∃ record stored, v = .localAssoc record ∧ k = mediumAddress record ∧ record.mxid ≠ [] ∧
    world .localAssoc record.id = some stored ∧ stored.medium = record.medium ∧ stored.address = record.address

/-- Records from such a cache can be told apart. -/
theorem CacheFits.distinct {cache : AssocMap} {world : World} (fits : CacheFits cache world) :
    Distinct (cachedFor cache) LocalAssocT.id localResult := by
  have entry {query : LookupQueryT} {record : LocalAssocT} (found : cachedFor cache query = some record) :
      cache.get? (mediumAddress record) = some (.localAssoc record) ∧ record.mxid ≠ [] ∧
        ∃ stored, world .localAssoc record.id = some stored ∧ stored.medium = record.medium ∧
          stored.address = record.address := by
    obtain ⟨v, cached, parsed⟩ := Option.bind_eq_some_iff.mp found
    obtain ⟨other, stored, rfl, key, named, has, medium, address⟩ := fits _ v cached
    obtain rfl := Option.some.inj parsed
    rw [← key]
    exact ⟨cached, named, stored, has, medium, address⟩
  have same {query query' : LookupQueryT} {record record' : LocalAssocT} (found : cachedFor cache query = some record)
      (found' : cachedFor cache query' = some record') (medium : record.medium = record'.medium)
      (address : record.address = record'.address) : record = record' := by
    have here := (entry found).1
    rw [mediumAddress, medium, address] at here
    exact Value.localAssoc.inj (Option.some.inj (here.symm.trans (entry found').1))
  refine ⟨fun query record found => (entry found).2.1, fun query query' record record' found found' number => ?_,
    fun query query' record record' found found' answer => ?_⟩
  · obtain ⟨_, _, stored, has, medium, address⟩ := entry found
    obtain ⟨_, _, stored', has', medium', address'⟩ := entry found'
    rw [number] at has
    obtain rfl := Option.some.inj (has.symm.trans has')
    exact same found found' (medium.symm.trans medium') (address.symm.trans address')
  · exact congrArg LocalAssocT.id
      (same found found' (congrArg LookupResultT.medium answer) (congrArg LookupResultT.address answer))

section Step

variable {world : World} {hostname : Bytes} {env : ActionEnv} {counter counter' : ℕ} {request : MasterRequest}
  {ops : List TableOp}

/-- An association keeps its number and its address. -/
theorem Writes.assoc_kept {db : DB} (represents : RepresentsAll db world)
    (writes : Writes world hostname env counter request ops counter') {n : ℕ} {old : LocalAssocT}
    (has : world .localAssoc n = some old) : ∃ new, ops.foldl TableOp.apply world .localAssoc n = some new ∧
      new.medium = old.medium ∧ new.address = old.address := by
  have frame := Writes.frame .localAssoc writes
  cases writes with
  | @bind3pid data sid session localFound globalFound localassoc globalassoc tokens tosign output localId
      localTaken globalId globalTaken usable localLooked localTakes localFree =>
    rw [(foldl_bind ..).1, Function.update_apply]
    split
    · next here =>
      refine ⟨_, rfl, ?_⟩
      obtain ⟨rfl, -⟩ := gives_takeId.mp localTakes
      cases localLooked with
      | found m localassoc stored same =>
        have number : localassoc.id = m := (represents .localAssoc).id_eq m localassoc stored
        have sameId : n = m := here.trans number
        subst sameId
        obtain rfl := Option.some.inj (has.symm.trans stored)
        exact ⟨rfl, rfl⟩
      | absent nobody =>
        have free : world .localAssoc n = none := here.symm ▸ localFree rfl
        rw [free] at has
        contradiction
    · exact ⟨old, has, rfl, rfl⟩
  | requestToken | submitToken | storeInvite | pending | getAccessKey | setBlobData =>
    rw [frame (by simp [MasterRequest.tables])]
    exact ⟨old, has, rfl, rfl⟩

/-- An association that a request puts is what is stored then, for the user that the request names. -/
theorem Writes.assoc_put (writes : Writes world hostname env counter request ops counter') {assoc : LocalAssocT}
    (puts : TableOp.add .localAssoc assoc ∈ ops) : ∃ data, request = .bind3pid data ∧ assoc.mxid = data.subtok.mxid ∧
      ops.foldl TableOp.apply world .localAssoc assoc.id = some assoc := by
  have touches := writes.name_mem puts
  cases writes with
  | @bind3pid data sid session localFound globalFound localassoc globalassoc tokens tosign output localId
      localTaken globalId globalTaken =>
    obtain rfl : assoc = boundLocal env data.subtok.mxid localId localassoc := by
      simpa using puts
    refine ⟨data, rfl, rfl, ?_⟩
    rw [(foldl_bind ..).1, Function.update_self]
  | requestToken | submitToken | storeInvite | pending | getAccessKey | setBlobData =>
    simp [MasterRequest.tables, TableOp.name] at touches

end Step

/-- A binding that names no user does nothing. -/
theorem serve_bind_unnamed {st : SharedTable} (invariant : TableInvariant st.maindb) {data : Bind3pidDataT}
    (unnamed : data.subtok.mxid = []) (env : ActionEnv) : (serve st (.bind3pid data) env).2 = st := by
  cases checked : checkBinding st env data.subtok with
  | ok session => exact (((checkBinding_eq_ok_iff invariant).mp checked).1 unnamed).elim
  | error e =>
    have refused : ((MasterRequest.bind3pid data).read st env).run st.maincounter = (.error e, st.maincounter) := by
      simp only [MasterRequest.read, bind3pidAction, bind3pidWith, checked]
      rfl
    rw [serve, runAction, refused]

/-- What holds of a master whose lookups can be answered, whichever way they go. -/
structure Lookable (st : SharedTable) : Prop where
  consistent : Consistent st
  named : ∀ n assoc, worldOf st.maindb .localAssoc n = some assoc → assoc.mxid ≠ []
  cached : st.lookupUsesLocal = true → CacheFits st.dbcache (worldOf st.maindb)

theorem Lookable.step {st : SharedTable} (lookable : Lookable st) (label : ServeStep) : Lookable (serveStep st label) := by
  obtain ⟨request, env⟩ := label
  have invariant := lookable.consistent.invariant
  by_cases unnamed : ∃ data, request = .bind3pid data ∧ data.subtok.mxid = []
  · obtain ⟨data, rfl, noUser⟩ := unnamed
    rw [serveStep, serve_bind_unnamed invariant noUser]
    exact lookable
  refine ⟨lookable.consistent.serve request env, ?_, ?_⟩
  · intro n assoc has
    obtain ⟨_, same | ⟨ops, writes, _, _, represents⟩⟩ := serve_cases invariant request env
    · rw [serveStep, ← same.world_eq] at has
      exact lookable.named n assoc has
    · rw [serveStep, ← represents.world_eq] at has
      rcases writes.localAssoc_cases has with old | ⟨data, _, _, _, _, _, isBind, _, _, rfl⟩
      · exact lookable.named n assoc old
      · exact fun noUser => unnamed ⟨data, isBind, noUser⟩
  · rw [serveStep, serve_lookupUsesLocal invariant]
    intro uses
    have before := lookable.cached uses
    obtain ⟨counter, _, same | ⟨transaction, ops, writes, built, after⟩⟩ := serve_outcome invariant request env
    · rw [same]
      exact before
    · have represents := commit_represents { st with maincounter := counter } invariant built env.commit true
      rw [after, commit_dbcache, ← represents.world_eq]
      by_cases written : (env.commit.logPut && env.commit.dataWrite) = true
      · rw [if_pos written, if_pos (by simp [written, uses]), built.items]
        intro k v cached
        rcases addToCache_cases cached with old | ⟨item, member, puts, rfl, record, parsed, key⟩
        · obtain ⟨record, stored, isRecord, key, named, has, medium, address⟩ := before k v old
          obtain ⟨new, hasNew, sameMedium, sameAddress⟩ := writes.assoc_kept invariant has
          exact ⟨record, new, isRecord, key, named, hasNew, sameMedium.trans medium, sameAddress.trans address⟩
        · obtain ⟨op, inOps, inItems⟩ := List.mem_flatMap.mp member
          obtain ⟨rfl, value⟩ := TableOp.add_of_parse inItems puts parsed
          obtain ⟨data, isBind, user, has⟩ := writes.assoc_put inOps
          refine ⟨record, record, value, key, fun noUser => unnamed ⟨data, isBind, user ▸ noUser⟩, has, rfl, rfl⟩
      · rw [if_neg written, if_neg (by simp_all)]
        exact before

theorem EmptyStore.lookable {start : SharedTable} (empty : EmptyStore start)
    (populated : populateCache start start.maindb = .ok start.dbcache) : Lookable start := by
  refine ⟨empty.consistent, fun n assoc has => (empty.nothing .localAssoc n assoc has).elim, fun uses k v cached => ?_⟩
  have represents : localAssocTable.Represents start.maindb (worldOf start.maindb .localAssoc) :=
    empty.consistent.invariant .localAssoc
  obtain ⟨cache, isFilled, exact⟩ := fillCache_exact represents
    fun n assoc has => (empty.nothing .localAssoc n assoc has).elim
  rw [populateCache, if_pos uses, isFilled] at populated
  obtain rfl := Except.ok.inj populated
  obtain ⟨n, assoc, has, _⟩ := (exact k v).mp cached
  exact (empty.nothing .localAssoc n assoc has).elim

/-- Published associations that are answered alike are the same. -/
theorem Paired.global_eq {st : SharedTable} (consistent : Consistent st) {hostname : Bytes}
    (paired : Paired (worldOf st.maindb) hostname) {m n : ℕ} {left right : GlobalAssocT}
    (hasLeft : worldOf st.maindb .globalAssoc m = some left) (hasRight : worldOf st.maindb .globalAssoc n = some right)
    (alike : globalResult left = globalResult right) : m = n := by
  have locals : localAssocTable.Represents _ (worldOf st.maindb .localAssoc) := consistent.invariant .localAssoc
  have globals : globalAssocTable.Represents _ (worldOf st.maindb .globalAssoc) := consistent.invariant .globalAssoc
  obtain ⟨i, assoc, hasAssoc, publishes⟩ := paired.origin m left hasLeft
  obtain ⟨j, assoc', hasAssoc', publishes'⟩ := paired.origin n right hasRight
  have medium : left.medium = right.medium := congrArg LookupResultT.medium alike
  have address : left.address = right.address := congrArg LookupResultT.address alike
  have sameKey : mediumAddress assoc = mediumAddress assoc' := by
    rw [mediumAddress, mediumAddress, ← publishes.medium, ← publishes.address, ← publishes'.medium, ← publishes'.address,
      medium, address]
  obtain rfl : i = j := locals.unique (List.mem_singleton_self _) hasAssoc hasAssoc' sameKey
  obtain rfl := Option.some.inj (hasAssoc.symm.trans hasAssoc')
  exact globals.unique (List.mem_cons_self ..) hasLeft hasRight (globalKey_inj.mpr
    ⟨publishes.originServer.trans publishes'.originServer.symm, publishes.originId.trans publishes'.originId.symm⟩)

/-- After every run of requests on an empty store, with the cache or without: the lookup of a list answers exactly what
the lookups of its addresses answer, each once. -/
theorem bulkLookup_agrees {start : SharedTable} (empty : EmptyStore start)
    (populated : populateCache start start.maindb = .ok start.dbcache) (labels : List ServeStep)
    (threepids : List LookupQueryT) : BulkAgrees (Run.final serveStep start labels) threepids := by
  have lookable := @Run.invariant _ _ serveStep Lookable (fun _ label before => before.step label) start
    (empty.lookable populated) labels
  obtain ⟨consistent, paired⟩ := run_paired empty labels
  cases uses : (Run.final serveStep start labels).lookupUsesLocal with
  | true => exact bulkAgrees_local uses (lookable.cached uses).distinct threepids
  | false =>
    refine bulkAgrees_global consistent.invariant uses (fun m n left right => paired.global_eq consistent) ?_ threepids
    intro n record has
    obtain ⟨m, assoc, hasAssoc, publishes⟩ := paired.origin n record has
    rw [publishes.mxid]
    exact lookable.named m assoc hasAssoc

theorem bulkLookup_agrees_validateAndBind :
    BulkAgrees (Run.final serveStep cachingMaster validateAndBind) [shorterQuery, shorterQuery] ∧
      BulkAgrees (Run.final serveStep emptyMaster validateAndBind) [shorterQuery, shorterQuery] :=
  ⟨@bulkLookup_agrees cachingMaster rfl fillCache_cachingNode validateAndBind _,
    @bulkLookup_agrees emptyMaster rfl rfl validateAndBind _⟩

end Identt.Hrpc
