import Identt.Lib.Run
import Identt.Store.CacheFollow
import Identt.Store.RecordCalls
import Identt.Store.TableRuns
import Identt.Store.TableScan
import Identt.Store.TransactionOps

/-! # The cache over runs of transactions

A node that looks up in its cache fills it from the table of local associations when it starts, and then
follows its commits. The cache stays a mirror of the table as long as no transaction moves a stored
association to another address or deletes one, and all its associations are reached.
-/

namespace Identt.Store

open StoreTrans StoreCache

/-- A call that adds to a transaction. A deletion is of the record that is stored under the identifier. -/
inductive TableCall where
  | addRecord (name : TableName) (record : name.Record) (upsert : Bool)
  | delRecord (name : TableName) (n : ℕ)

namespace TableCall

/-- The transaction after the call; a call that refuses its record, or throws, adds nothing. -/
def build (db : DB) (transaction : TransactionT) : TableCall → TransactionT
  | .addRecord name record upsert =>
    match name.table.addRecord db record transaction upsert with
    | .ok (_, transaction) => transaction
    | .error _ => transaction
  | .delRecord name n =>
    match name.table.records db n with
    | some record => (name.table.delRecord record transaction).2
    | none => transaction

def items (db : DB) (call : TableCall) : List TransItemT := (call.build db {}).item

end TableCall

/-- A transaction of calls made against the database of the moment, and how its commit goes. -/
structure CommitLabel where
  calls : List TableCall
  env : CommitEnv
  isMaster : Bool

/-- What a label commits. -/
def CommitLabel.transaction (db : DB) (label : CommitLabel) : TransactionT := label.calls.foldl (TableCall.build db) {}

def commitStep (st : SharedTable) (label : CommitLabel) : SharedTable :=
  (commit label.env st (label.transaction st.maindb) label.isMaster).2

/-- What a call does to the local associations. -/
inductive AssocChange where
  | put (record : LocalAssocT)
  | drop (record : LocalAssocT)
deriving DecidableEq

def TableCall.change (db : DB) : TableCall → Option AssocChange
  | .addRecord .localAssoc record upsert =>
    match localAssocTable.addRecord db record {} upsert with
    | .ok (true, _) => some (.put record)
    | _ => none
  | .delRecord .localAssoc n => (localAssocTable.records db n).map .drop
  | _ => none

/-- A stored association keeps its joined medium and address, and only one without both is deleted. -/
def AssocChange.Steady (db : DB) : AssocChange → Prop
  | .put record => record.id < 2 ^ 64 ∧
      ∀ old, localAssocTable.records db record.id = some old → mediumAddress old = mediumAddress record
  | .drop record => record.medium = [] ∧ record.address = []

/-- Two changes of one transaction, in their order: associations with one identifier have one address and the
other way round, and none is added again after it was deleted. -/
def AssocChange.Agrees : AssocChange → AssocChange → Prop
  | .put left, .put right => left.id = right.id ↔ mediumAddress left = mediumAddress right
  | .drop left, .put right => left.id ≠ right.id
  | _, .drop _ => True

/-- The cache can keep up with a transaction, if it is written at all. -/
structure Trackable (st : SharedTable) (label : CommitLabel) : Prop where
  steady : ∀ change ∈ label.calls.filterMap (TableCall.change st.maindb), change.Steady st.maindb
  agrees : (label.calls.filterMap (TableCall.change st.maindb)).Pairwise AssocChange.Agrees
  follows : Follows (label.transaction st.maindb).item

/-- The cache mirrors the table of local associations. -/
def CacheExact (st : SharedTable) : Prop :=
  st.dbcache.Mirrors (worldOf st.maindb .localAssoc) mediumAddress Value.localAssoc

theorem TableCall.build_eq (db : DB) (transaction : TransactionT) (call : TableCall) :
    call.build db transaction = transaction.append (call.items db) := by
  cases call with
  | addRecord name record upsert => exact RecordCall.build_eq db transaction (.addRecord name record upsert)
  | delRecord name n =>
    simp only [build, items]
    split
    · next record _ => exact RecordCall.build_eq db transaction (.delRecord name record)
    · simp

theorem CommitLabel.transaction_item (db : DB) (label : CommitLabel) :
    (label.transaction db).item = label.calls.flatMap (TableCall.items db) := by
  rw [transaction, TransactionT.foldl_append fun transaction call => call.build_eq db transaction]
  exact List.nil_append _

section Change

variable {db : DB} {records current : ℕ → Option LocalAssocT} {cache : AssocMap}

def AssocChange.record : AssocChange → LocalAssocT
  | .put record | .drop record => record

def AssocChange.apply (current : ℕ → Option LocalAssocT) : AssocChange → ℕ → Option LocalAssocT
  | .put record => Function.update current record.id (some record)
  | .drop record => Function.update current record.id none

def AssocChange.items (records : ℕ → Option LocalAssocT) : AssocChange → List TransItemT
  | .put record => localAssocTable.recordItems (records record.id) record
  | .drop record => localAssocTable.removeItems record

/-- A change that the calls can make to a table and the cache can follow. -/
def AssocChange.Valid (records : ℕ → Option LocalAssocT) : AssocChange → Prop
  | .put record => localAssocTable.Acceptable records record ∧ localAssocTable.Removable records record ∧
      record.id < 2 ^ 64
  | .drop record => records record.id = some record ∧ localAssocTable.Removable records record ∧
      mediumAddress record = mediumAddress default ∧ record.id < 2 ^ 64

/-- The change still fits a table that earlier changes of the transaction may have changed. -/
structure AssocChange.Ready (records current : ℕ → Option LocalAssocT) (change : AssocChange) : Prop where
  removable : localAssocTable.Removable current change.record
  present : ∀ record, change = .put record → (records record.id).isSome → (current record.id).isSome

/-- What a call does to the associations and to its transaction. -/
theorem TableCall.cases_change (represents : localAssocTable.Represents db records)
    (call : TableCall) :
    (call.change db = none ∧ ∀ item ∈ call.items db, ∃ name : TableName, name ≠ .localAssoc ∧
      ∃ keytype ∈ name.keyTypes, HasType keytype item.key) ∨
    (∃ record, call.change db = some (.put record) ∧ localAssocTable.Acceptable records record ∧
      call.items db = localAssocTable.recordItems (records record.id) record) ∨
    ∃ record, call.change db = some (.drop record) ∧ records record.id = some record ∧
      call.items db = localAssocTable.removeItems record := by
  cases call with
  | addRecord name record upsert =>
    rcases eq_or_ne name .localAssoc with rfl | other
    · rcases represents.addRecord_eq record {} upsert with ⟨acceptable, _, answer⟩ | ⟨_, answer⟩
      · refine .inr (.inl ⟨record, ?_, acceptable, ?_⟩)
        · simp only [change, answer]
        · simp only [items, build]
          rw [show TableName.localAssoc.table.addRecord db record {} upsert = _ from answer]
          rfl
      · refine .inl ⟨by simp only [change, answer], ?_⟩
        simp only [items, build]
        rw [show TableName.localAssoc.table.addRecord db record {} upsert = _ from answer]
        exact fun item member => (List.not_mem_nil member).elim
    · refine .inl ⟨by cases name <;> first | contradiction | rfl, fun item member => ⟨name, other, ?_⟩⟩
      rcases name.table.addRecord_appends db record upsert with ⟨e, answer⟩ | answer | answer
      · simp [items, build, answer] at member
      · simp [items, build, answer] at member
      · simp only [items, build, answer, TransactionT.append_item, List.nil_append] at member
        exact name.table.recordItems_hasType member
  | delRecord name n =>
    rcases eq_or_ne name .localAssoc with rfl | other
    · cases has : records n with
      | none =>
        have read : localAssocTable.records db n = none := by rw [← represents.records_eq, has]
        refine .inl ⟨by simp [change, read], ?_⟩
        simp only [items, build]
        rw [show TableName.localAssoc.table.records db n = _ from read]
        exact fun item member => (List.not_mem_nil member).elim
      | some record =>
        have read : localAssocTable.records db n = some record := by rw [← represents.records_eq, has]
        have number : record.id = n := represents.id_eq n record has
        have found : record.notfound = false := represents.found n record has
        refine .inr (.inr ⟨record, by simp [change, read], by rw [number, has], ?_⟩)
        simp only [items, build]
        rw [show TableName.localAssoc.table.records db n = _ from read]
        simp only [StoreTable.delRecord_eq]
        rw [show TableName.localAssoc.table.notfound record = _ from found]
        rfl
    · refine .inl ⟨by cases name <;> first | contradiction | rfl, fun item member => ⟨name, other, ?_⟩⟩
      simp only [items, build] at member
      split at member
      · simp only [StoreTable.delRecord_eq] at member
        split at member
        · exact (List.not_mem_nil member).elim
        · exact name.table.removeItems_hasType (by simpa using member)
      · exact (List.not_mem_nil member).elim

/-- Fitting the associations is having the key of the stored one, and of no other. -/
theorem removable_iff {record : LocalAssocT} : localAssocTable.Removable current record ↔
    ∀ n other, current n = some other → (mediumAddress other = mediumAddress record ↔ n = record.id) := by
  constructor
  · exact fun removable => removable .uLocalAssocMediumAddress (List.mem_singleton_self _)
  · intro fits keytype member n other has
    obtain rfl := List.mem_singleton.mp member
    exact fits n other has

/-- A change of the transaction leaves later ones ready. -/
theorem AssocChange.Ready.step {first second : AssocChange} (validFirst : first.Valid records)
    (validSecond : second.Valid records) (agrees : first.Agrees second) (ready : second.Ready records current) :
    second.Ready records (first.apply current) := by
  refine ⟨removable_iff.mpr fun n other has => ?_, ?_⟩
  · have before := removable_iff.mp ready.removable
    cases first with
    | put left =>
      rw [apply, Function.update_apply] at has
      split at has
      · next here =>
        cases has
        rw [here]
        cases second with
        | put right => exact agrees.symm
        | drop right =>
          -- the record that is dropped later is stored, and the key of the first one is its own
          have own := removable_iff.mp validFirst.2.1 right.id right validSecond.1
          exact ⟨fun same => (own.mp same.symm).symm, fun same => (own.mpr same.symm).symm⟩
      · exact before n other has
    | drop left =>
      rw [apply, Function.update_apply] at has
      split at has
      · contradiction
      · exact before n other has
  · rintro record rfl stored
    have present := ready.present record rfl stored
    cases first with
    | put left =>
      rw [apply, Function.update_apply]
      split
      · rfl
      · exact present
    | drop left =>
      have other : record.id ≠ left.id := Ne.symm agrees
      rwa [apply, Function.update_of_ne other]

/-- Writing the items of a change to the table. -/
theorem AssocChange.represents (represents : localAssocTable.Represents db current) {change : AssocChange}
    (valid : change.Valid records) (ready : change.Ready records current) :
    localAssocTable.Represents (applyItems db (change.items records)) (change.apply current) := by
  cases change with
  | drop record => exact represents.remove ready.removable
  | put record =>
    have fits := removable_iff.mp ready.removable
    have acceptable : localAssocTable.Acceptable current record := by
      refine ⟨valid.1.id_ne_zero, valid.1.found, ?_⟩
      rintro ⟨keytype, member, n, other, has, differ, same⟩
      obtain rfl := List.mem_singleton.mp member
      exact differ ((fits n other has).mp same)
    have added := represents.add acceptable
    suffices same : applyItems db (localAssocTable.recordItems (records record.id) record) =
        applyItems db (localAssocTable.recordItems (current record.id) record) by
      rw [items, same]
      exact added
    cases now : current record.id with
    | none =>
      cases old : records record.id with
      | none => rfl
      | some stored =>
        have present := ready.present record rfl (by rw [old]; rfl)
        rw [now] at present
        contradiction
    | some other =>
      have sameKey : mediumAddress other = mediumAddress record := (fits record.id other now).mpr rfl
      have keepsKey {stored : LocalAssocT} (same : mediumAddress stored = mediumAddress record) :
          localAssocTable.recordItems (some stored) record =
            [⟨encodePrimaryKey .kLocalAssoc record.id, .localAssoc record, false⟩] :=
        localAssocTable.recordItems_of_same_keys fun keytype member => by
          obtain rfl := List.mem_singleton.mp member
          exact same
      rw [keepsKey sameKey]
      cases old : records record.id with
      | some stored => rw [keepsKey ((removable_iff.mp valid.2.1 record.id stored old).mpr rfl)]
      | none =>
        -- the key was put by an earlier change already
        have split : localAssocTable.recordItems none record =
            [⟨mediumAddress record, localAssocTable.dumpNode record, false⟩] ++
              [⟨encodePrimaryKey .kLocalAssoc record.id, .localAssoc record, false⟩] := rfl
        have there : db.get? (mediumAddress record) = some (localAssocTable.nodeValue record.id) :=
          (represents.index .uLocalAssocMediumAddress (List.mem_singleton_self _) _
            (hasType_encodeSecondaryKey _ _) _).mpr ⟨_, other, now, sameKey, rfl⟩
        have again : applyItems db [⟨mediumAddress record, localAssocTable.dumpNode record, false⟩] = db := by
          apply OrderedMap.ext_get?
          intro key
          rw [get?_applyItems_put]
          split
          · next here =>
            rw [here, there]
            rfl
          · rfl
        rw [split, applyItems_append, again]

/-- The cache follows the items of a change. -/
theorem AssocChange.mirrors (mirrors : cache.Mirrors current mediumAddress Value.localAssoc) {change : AssocChange}
    (valid : change.Valid records) (ready : change.Ready records current) :
    (follow cache (change.items records)).Mirrors (change.apply current) mediumAddress Value.localAssoc := by
  have fits := removable_iff.mp ready.removable
  cases change with
  | put record =>
    rw [items, follow_recordItems]
    exact mirrors.put (fun old has => (fits _ old has).mpr rfl) fun m other has same => (fits m other has).mp same
  | drop record =>
    rw [items, follow_removeItems, ← valid.2.2.1]
    exact mirrors.erase (fun old has => (fits _ old has).mpr rfl) fun m other has same => (fits m other has).mp same

/-- The calls of a transaction, one after the other. -/
theorem calls_mirror {start : DB} (represented : localAssocTable.Represents start records) (calls : List TableCall)
    (represents : localAssocTable.Represents db current)
    (mirrors : cache.Mirrors current mediumAddress Value.localAssoc)
    (valid : ∀ change ∈ calls.filterMap (TableCall.change start), change.Valid records)
    (ready : ∀ change ∈ calls.filterMap (TableCall.change start), change.Ready records current)
    (agrees : (calls.filterMap (TableCall.change start)).Pairwise AssocChange.Agrees) :
    localAssocTable.Represents (applyItems db (calls.flatMap (TableCall.items start)))
        ((calls.filterMap (TableCall.change start)).foldl AssocChange.apply current) ∧
      (follow cache (calls.flatMap (TableCall.items start))).Mirrors
        ((calls.filterMap (TableCall.change start)).foldl AssocChange.apply current) mediumAddress Value.localAssoc := by
  induction calls generalizing db current cache with
  | nil => exact ⟨represents, mirrors⟩
  | cons call rest ih =>
    rw [List.flatMap_cons, applyItems_append, follow_append]
    have changed {change : AssocChange} (is : call.change start = some change)
        (items : call.items start = change.items records) :
        localAssocTable.Represents
            (applyItems (applyItems db (call.items start)) (rest.flatMap (TableCall.items start)))
            (((call :: rest).filterMap (TableCall.change start)).foldl AssocChange.apply current) ∧
          (follow (follow cache (call.items start)) (rest.flatMap (TableCall.items start))).Mirrors
            (((call :: rest).filterMap (TableCall.change start)).foldl AssocChange.apply current) mediumAddress
            Value.localAssoc := by
      rw [List.filterMap_cons_some is] at valid ready agrees ⊢
      obtain ⟨head, agreesRest⟩ := List.pairwise_cons.mp agrees
      have validHead := valid change (List.mem_cons_self ..)
      have readyHead := ready change (List.mem_cons_self ..)
      rw [items, List.foldl_cons]
      exact ih (AssocChange.represents represents validHead readyHead) (AssocChange.mirrors mirrors validHead readyHead)
        (fun later member => valid later (List.mem_cons_of_mem _ member))
        (fun later member => (ready later (List.mem_cons_of_mem _ member)).step validHead
          (valid later (List.mem_cons_of_mem _ member)) (head later member)) agreesRest
    rcases call.cases_change represented with ⟨none, others⟩ | ⟨record, is, _, items⟩ | ⟨record, is, _, items⟩
    · rw [List.filterMap_cons_none none] at valid ready agrees ⊢
      have untouched : localAssocTable.Represents (applyItems db (call.items start)) current := by
        refine represents.frame fun keytype member key hasType => applyItems_of_untouched ?_
        rintro item inItems rfl
        obtain ⟨name, other, keytype', inKeys, hasType'⟩ := others item inItems
        exact TableName.keyTypes_disjoint other inKeys (hasType'.unique hasType ▸ member)
      have passed : follow cache (call.items start) = cache := follow_of_other (fun item inItems => by
        obtain ⟨name, other, ofTable⟩ := others item inItems
        exact (typed_of_other other ofTable).2) cache
      rw [passed]
      exact ih untouched mirrors valid ready agrees
    · exact changed is items
    · exact changed is items

/-- The changes of a transaction that the cache can keep up with are valid. -/
theorem Trackable.valid {st : SharedTable} (represents : localAssocTable.Represents st.maindb records)
    (word : ∀ n assoc, records n = some assoc → n < 2 ^ 64) {label : CommitLabel} (trackable : Trackable st label)
    {change : AssocChange} (member : change ∈ label.calls.filterMap (TableCall.change st.maindb)) :
    change.Valid records := by
  have steady := trackable.steady change member
  obtain ⟨call, _, is⟩ := List.mem_filterMap.mp member
  rcases call.cases_change represents with ⟨none, _⟩ | ⟨record, isPut, acceptable, _⟩ | ⟨record, isDrop, stored, _⟩
  · rw [none] at is
    contradiction
  · obtain rfl : change = .put record := Option.some.inj (is.symm.trans isPut)
    refine ⟨acceptable, removable_iff.mpr fun n other has => ⟨fun same => ?_, ?_⟩, steady.1⟩
    · exact (acceptable.separate represents (List.mem_singleton_self _) has same)
    · rintro rfl
      exact steady.2 other (by rw [← represents.records_eq, has])
  · obtain rfl : change = .drop record := Option.some.inj (is.symm.trans isDrop)
    refine ⟨stored, represents.removable stored, ?_, word _ record stored⟩
    simp only [mediumAddress, steady.1, steady.2]
    rfl

/-- The items of a transaction that the cache can keep up with. -/
theorem Trackable.typed {st : SharedTable} (represents : localAssocTable.Represents st.maindb records)
    (word : ∀ n assoc, records n = some assoc → n < 2 ^ 64) {label : CommitLabel} (trackable : Trackable st label)
    {item : TransItemT} (inItems : item ∈ (label.transaction st.maindb).item) : Typed item := by
  rw [label.transaction_item, List.mem_flatMap] at inItems
  obtain ⟨call, inCalls, inItems⟩ := inItems
  have valid {change : AssocChange} (is : call.change st.maindb = some change) : change.Valid records :=
    trackable.valid represents word (List.mem_filterMap.mpr ⟨call, inCalls, is⟩)
  rcases call.cases_change represents with ⟨_, others⟩ | ⟨record, is, _, items⟩ | ⟨record, is, _, items⟩
  · obtain ⟨name, other, ofTable⟩ := others item inItems
    exact (typed_of_other other ofTable).1
  · rw [items] at inItems
    exact typed_recordItems (valid is).2.2 inItems
  · rw [items] at inItems
    exact typed_removeItems (valid is).2.2.2 inItems

theorem AssocChange.apply_word {change : AssocChange} (valid : change.Valid records)
    (word : ∀ n assoc, current n = some assoc → n < 2 ^ 64) :
    ∀ n assoc, change.apply current n = some assoc → n < 2 ^ 64 := by
  intro n assoc has
  cases change with
  | put record =>
    rw [apply, Function.update_apply] at has
    split at has
    · next here => exact here ▸ valid.2.2
    · exact word n assoc has
  | drop record =>
    rw [apply, Function.update_apply] at has
    split at has
    · contradiction
    · exact word n assoc has

theorem AssocChange.foldl_word {changes : List AssocChange} (valid : ∀ change ∈ changes, change.Valid records)
    (word : ∀ n assoc, current n = some assoc → n < 2 ^ 64) :
    ∀ n assoc, changes.foldl AssocChange.apply current n = some assoc → n < 2 ^ 64 := by
  induction changes generalizing current with
  | nil => exact word
  | cons change rest ih =>
    exact ih (fun later member => valid later (List.mem_cons_of_mem _ member))
      (apply_word (valid change (List.mem_cons_self ..)) word)

end Change

/-- What is carried along a run. -/
structure Coherent (st : SharedTable) : Prop where
  represents : localAssocTable.Represents st.maindb (worldOf st.maindb .localAssoc)
  word : ∀ n assoc, worldOf st.maindb .localAssoc n = some assoc → n < 2 ^ 64
  uses : st.lookupUsesLocal = true
  exact : CacheExact st

/-- A commit that the cache can keep up with, or that is not written, keeps the cache exact. -/
theorem Coherent.step {st : SharedTable} (coherent : Coherent st) {label : CommitLabel}
    (trackable : label.env.logPut = true → label.env.dataWrite = true → Trackable st label) :
    Coherent (commitStep st label) := by
  have represents := coherent.represents
  have data {keytype : KeyTypeE} (member : keytype ∈ localAssocTable.primaryKey :: localAssocTable.secondaryKeys)
      {key : Bytes} (hasType : HasType keytype key) := commit_offLog label.env st (label.transaction st.maindb)
    label.isMaster (.inr (DataKey.not_log ⟨.localAssoc, keytype, member, hasType⟩) : OffLog st key)
  have cached := commit_dbcache label.env st (label.transaction st.maindb) label.isMaster
  have uses : (commitStep st label).lookupUsesLocal = true :=
    (commit_lookupUsesLocal ..).trans coherent.uses
  rw [coherent.uses, Bool.and_true] at cached
  cases written : label.env.logPut && label.env.dataWrite with
  | false =>
    simp only [written, Bool.false_eq_true, if_false, applyItems_nil] at data cached
    have after : localAssocTable.Represents (commitStep st label).maindb (worldOf st.maindb .localAssoc) :=
      represents.frame fun keytype member key hasType => data member hasType
    have same : worldOf (commitStep st label).maindb .localAssoc = worldOf st.maindb .localAssoc :=
      after.records_eq.symm
    refine ⟨by rw [same]; exact after, by rw [same]; exact coherent.word, uses, ?_⟩
    rw [CacheExact, same, commitStep, cached]
    exact coherent.exact
  | true =>
    obtain ⟨logged, dataWritten⟩ := Bool.and_eq_true_iff.mp written
    have trackable := trackable logged dataWritten
    simp only [written, if_true] at data cached
    have valid := fun change member => @Trackable.valid _ st represents coherent.word label trackable change member
    have ready : ∀ change ∈ label.calls.filterMap (TableCall.change st.maindb),
        change.Ready (worldOf st.maindb .localAssoc) (worldOf st.maindb .localAssoc) := by
      intro change member
      refine ⟨?_, fun record _ present => present⟩
      cases change with
      | put record => exact (valid _ member).2.1
      | drop record => exact (valid _ member).2.1
    obtain ⟨applied, mirrors⟩ := calls_mirror represents label.calls represents coherent.exact valid ready
      trackable.agrees
    rw [← label.transaction_item] at applied mirrors
    have after := applied.frame fun keytype member key hasType => data member hasType
    have same : worldOf (commitStep st label).maindb .localAssoc = _ := after.records_eq.symm
    refine ⟨by rw [same]; exact after, ?_, uses, ?_⟩
    · rw [same]
      exact AssocChange.foldl_word valid coherent.word
    · rw [CacheExact, same, commitStep, cached,
        addToCache_eq (fun item => trackable.typed represents coherent.word) trackable.follows]
      exact mirrors

section Fill

variable {db : DB} {records : ℕ → Option LocalAssocT}

/-- Identifiers that fit a machine word, each once, are fewer than the limit of the scan. -/
theorem length_le_of_nodup {l : List ℕ} {limit : ℕ} (nodup : l.Nodup) (bounds : ∀ n ∈ l, 1 ≤ n ∧ n ≤ limit) :
    l.length ≤ limit := by
  have subset : l.toFinset ⊆ Finset.Icc 1 limit := by
    intro n member
    exact Finset.mem_Icc.mpr (bounds n (List.mem_toFinset.mp member))
  have card := Finset.card_le_card subset
  rwa [List.toFinset_card_of_nodup nodup, Nat.card_Icc, Nat.add_sub_cancel] at card

/-- The filled cache mirrors the table. -/
theorem fillCache_exact (represents : localAssocTable.Represents db records)
    (word : ∀ n assoc, records n = some assoc → n < 2 ^ 64) :
    ∃ cache, fillCache db = .ok cache ∧ cache.Mirrors records mediumAddress Value.localAssoc := by
  obtain ⟨associations, listed, scans⟩ := @StoreTable.scanTable_eq _ _ _ _ represents word 0 (by omega)
  have numbers : (associations.map LocalAssocT.id).Nodup :=
    (List.pairwise_map.mpr listed.ordered).imp ne_of_lt
  have few : associations.length ≤ 2 ^ 64 - 1 := by
    rw [← List.length_map LocalAssocT.id]
    refine length_le_of_nodup numbers fun n member => ?_
    obtain ⟨assoc, inList, rfl⟩ := List.mem_map.mp member
    have stored := ((listed.mem_iff assoc).mp inList).1
    have positive : assoc.id ≠ 0 := represents.ne_zero stored
    have small : assoc.id < 2 ^ 64 := word _ assoc stored
    omega
  have all (assoc : LocalAssocT) : assoc ∈ associations ↔ ∃ n, records n = some assoc := by
    rw [listed.mem_iff]
    constructor
    · exact fun stored => ⟨_, stored.1⟩
    · rintro ⟨n, stored⟩
      rw [represents.id_eq n assoc stored]
      exact ⟨stored, Nat.zero_le n⟩
  rw [fillCache, scans, if_neg (by omega), List.take_of_length_le few]
  refine ⟨_, rfl, OrderedMap.mirrors_foldl_put all fun r inR r' inR' same => ?_⟩
  obtain ⟨m, hasLeft⟩ := (all r).mp inR
  obtain ⟨n, hasRight⟩ := (all r').mp inR'
  obtain rfl := represents.unique (List.mem_singleton_self _) hasLeft hasRight same
  exact Option.some.inj (hasLeft.symm.trans hasRight)

end Fill

/-- In every run of transactions on a node that filled its cache when it started, the cache mirrors the table of
local associations after every commit, if it can keep up with each transaction that is written. -/
theorem cache_exact_of_trackable {start : SharedTable} (invariant : TableInvariant start.maindb)
    (word : ∀ n assoc, worldOf start.maindb .localAssoc n = some assoc → n < 2 ^ 64)
    (uses : start.lookupUsesLocal = true) (filled : fillCache start.maindb = .ok start.dbcache)
    {labels : List CommitLabel}
    (guarded : Run.Guarded commitStep (fun st label => label.env.logPut = true → label.env.dataWrite = true →
      Trackable st label) start labels) (i : ℕ) :
    CacheExact (Run.final commitStep start (labels.take i)) := by
  have initial : Coherent start := by
    have represents : localAssocTable.Represents start.maindb (worldOf start.maindb .localAssoc) :=
      invariant .localAssoc
    obtain ⟨cache, isFilled, exact⟩ := fillCache_exact represents word
    obtain rfl : cache = start.dbcache := Except.ok.inj (isFilled.symm.trans filled)
    exact ⟨represents, word, uses, exact⟩
  have throughout := @Run.invariant_of_guarded _ _ commitStep Coherent _
    (fun st label coherent trackable => Coherent.step coherent trackable) start initial labels guarded i
  exact throughout.exact

/-- A node with an empty store that looks up in its cache. -/
def cachingNode : SharedTable where
  maindb := StoreLevel.putFences .empty
  logdb := some (StoreLevel.putFences .empty)
  lookupUsesLocal := true

def addAssoc (id : ℕ) (address mxid : String) (upsert : Bool) : CommitLabel where
  calls := [.addRecord .localAssoc { id := id, medium := ascii "email", address := ascii address, mxid := ascii mxid } upsert]
  env := { now := 0 }
  isMaster := true

theorem fillCache_cachingNode : fillCache cachingNode.maindb = .ok cachingNode.dbcache := by
  obtain ⟨cache, filled, exact⟩ := fillCache_exact (representsAll_putFences .localAssoc) nofun
  have empty : cache = .empty := by
    apply OrderedMap.ext_get?
    intro key
    exact exact.get?_eq_none nofun
  exact filled.trans (congrArg Except.ok empty)

/-- An association is stored and deleted again. -/
def storeAndDelete : List CommitLabel :=
  [addAssoc 2 "a@x.com" "@a:x" false, { calls := [.delRecord .localAssoc 2], env := { now := 0 }, isMaster := true }]

/-- The deleted association stays in the cache. -/
theorem storeAndDelete_not_exact : TableInvariant cachingNode.maindb ∧ cachingNode.lookupUsesLocal = true ∧
    fillCache cachingNode.maindb = .ok cachingNode.dbcache ∧
    ¬ ∀ i, CacheExact (Run.final commitStep cachingNode (storeAndDelete.take i)) := by
  refine ⟨tableInvariant_putFences, rfl, fillCache_cachingNode, fun exact => ?_⟩
  have cached : ((Run.final commitStep cachingNode (storeAndDelete.take 2)).dbcache.get?
      (mediumAddress { medium := ascii "email", address := ascii "a@x.com" })).isSome := by decide +kernel
  obtain ⟨value, has⟩ := Option.isSome_iff_exists.mp cached
  obtain ⟨n, assoc, stored, _⟩ := (exact 2 _ value).mp has
  have gone : (Run.final commitStep cachingNode (storeAndDelete.take 2)).maindb = StoreLevel.putFences .empty := by
    decide +kernel
  rw [gone, ← representsAll_putFences.world_eq] at stored
  contradiction

theorem cache_exact_of_trackable_addAssoc :
    CacheExact (Run.final commitStep cachingNode [addAssoc 2 "a@x.com" "@a:x" false]) := by
  have noRecords : worldOf cachingNode.maindb = fun _ _ => none := representsAll_putFences.world_eq.symm
  have changes : [TableCall.addRecord .localAssoc
      ({ id := 2, medium := ascii "email", address := ascii "a@x.com", mxid := ascii "@a:x" } : LocalAssocT)
      false].filterMap (TableCall.change cachingNode.maindb) =
        [.put { id := 2, medium := ascii "email", address := ascii "a@x.com", mxid := ascii "@a:x" }] := by
    decide +kernel
  have trackable : Trackable cachingNode (addAssoc 2 "a@x.com" "@a:x" false) := by
    refine ⟨?_, ?_, by decide +kernel⟩
    · rw [addAssoc, changes]
      intro change member
      obtain rfl := List.mem_singleton.mp member
      refine ⟨by decide, fun old has => ?_⟩
      have nothing : localAssocTable.records cachingNode.maindb = fun _ => none := congrFun noRecords .localAssoc
      rw [nothing] at has
      contradiction
    · rw [addAssoc, changes]
      exact List.pairwise_singleton ..
  have guarded : Run.Guarded commitStep (fun st label => label.env.logPut = true → label.env.dataWrite = true →
      Trackable st label) cachingNode [addAssoc 2 "a@x.com" "@a:x" false] :=
    Run.guarded_cons.mpr ⟨fun _ _ => trackable, fun i label here => by
      rw [List.getElem?_nil] at here
      contradiction⟩
  have word : ∀ n assoc, worldOf cachingNode.maindb .localAssoc n = some assoc → n < 2 ^ 64 := by
    intro n assoc has
    rw [noRecords] at has
    contradiction
  exact cache_exact_of_trackable tableInvariant_putFences word rfl fillCache_cachingNode guarded 1

end Identt.Store
