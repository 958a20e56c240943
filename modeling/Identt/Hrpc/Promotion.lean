import Identt.Hrpc.RemoteKeeper
import Identt.Store.Recovery
import Identt.Store.World

/-! # A slave that becomes the master

A node takes its record counter from its own database when it starts. Replaying the master's
transactions does not move it, and neither does the election, so the identifiers it hands out as the
master are new exactly when nothing it replayed lies above what it started with.
-/

namespace Identt.Hrpc

open Store StoreTrans

/-- The keys of a database are what `Initialize` can read: every key has a key type, and a primary key
has an identifier of 64 bits. -/
structure WellKeyed (db : DB) : Prop where
  typed : ∀ key value, db.get? key = some value → ∃ keytype, HasType keytype key
  fits : ∀ pair ∈ StoreLevel.dataTypes, ∀ key value, HasType pair.2 key → db.get? key = some value →
    ∃ n < 2 ^ 64, key = encodePrimaryKey pair.2 n
  noNode : ∀ n value, db.get? (encodePrimaryKey .kNoNode n) = some value → n = 0

/-- A table of the repository has something under the primary key of an identifier. -/
def Present (db : DB) (n : ℕ) : Prop :=
  ∃ name : TableName, (db.get? (encodePrimaryKey name.table.primaryKey n)).isSome

/-- Commit a list of master transactions as a slave. -/
def replayAll (st : SharedTable) (log : List (CommitEnv × TransactionT)) : SharedTable :=
  log.foldl (fun st entry => (commit entry.1 st entry.2 false).2) st

/-- The items of the transactions whose writes succeed. -/
def writtenItems (log : List (CommitEnv × TransactionT)) : List TransItemT :=
  (log.filter fun entry => entry.1.logPut && entry.1.dataWrite).flatMap fun entry => entry.2.item

theorem replayAll_maincounter (st : SharedTable) (log : List (CommitEnv × TransactionT)) :
    (replayAll st log).maincounter = st.maincounter := by
  induction log generalizing st with
  | nil => rfl
  | cons entry rest ih => exact (ih _).trans (commit_maincounter ..)

/-- The data a slave ends up with. -/
theorem replayAll_maindb (st : SharedTable) (log : List (CommitEnv × TransactionT)) {key : Bytes}
    (offLog : OffLog st key) :
    (replayAll st log).maindb.get? key = (applyItems st.maindb (writtenItems log)).get? key := by
  induction log generalizing st with
  | nil => rfl
  | cons entry rest ih =>
    have after : OffLog (commit entry.1 st entry.2 false).2 key := by rwa [OffLog, commit_logdb_isSome]
    have items : writtenItems (entry :: rest) =
        (if entry.1.logPut && entry.1.dataWrite then entry.2.item else []) ++ writtenItems rest := by
      rw [writtenItems, List.filter_cons]
      split <;> rfl
    rw [items, applyItems_append]
    exact (ih _ after).trans (applyItems_congr (commit_offLog entry.1 st entry.2 false offLog) _)

section Counter

variable {db : DB}

/-- What `lastPkey` returns is the largest identifier read, or the number it started from. -/
theorem lastPkey_eq {types : List (KeyTypeE × KeyTypeE)} {last pkey : ℕ}
    (read : StoreLevel.lastPkey db last types = .ok pkey) :
    last ≤ pkey ∧ (∀ pair ∈ types, ∃ id, StoreLevel.lastId db pair.1 pair.2 "Some fixed records missing"
        "Some zero records missing" = .ok id ∧ id.getD 0 ≤ pkey) ∧
      (pkey = last ∨ ∃ pair ∈ types, StoreLevel.lastId db pair.1 pair.2 "Some fixed records missing"
        "Some zero records missing" = .ok (some pkey)) := by
  induction types generalizing last with
  | nil =>
    cases read
    exact ⟨le_rfl, fun _ member => (List.not_mem_nil member).elim, .inl rfl⟩
  | cons pair rest ih =>
    obtain ⟨next, keytype⟩ := pair
    rw [StoreLevel.lastPkey, bind_eq_ok] at read
    obtain ⟨id, readId, readRest⟩ := read
    obtain ⟨grows, bounds, attained⟩ := ih readRest
    refine ⟨(le_max_left ..).trans grows, fun pair member => ?_, ?_⟩
    · rcases List.mem_cons.mp member with rfl | inRest
      · exact ⟨id, readId, (le_max_right ..).trans grows⟩
      · exact bounds pair inRest
    · rcases attained with same | ⟨pair, inRest, here⟩
      · rcases le_total last (id.getD 0) with below | above
        · rw [max_eq_right below] at same
          cases id with
          | none =>
            left
            simp only [Option.getD_none] at same below
            omega
          | some n => exact .inr ⟨_, List.mem_cons_self .., by rw [same]; exact readId⟩
        · exact .inl (by rw [same, max_eq_left above])
      · exact .inr ⟨pair, List.mem_cons_of_mem _ inRest, here⟩

/-- Reading the last identifier of every type is enough for `lastPkey` not to throw. -/
theorem lastPkey_total {types : List (KeyTypeE × KeyTypeE)} (last : ℕ)
    (reads : ∀ pair ∈ types, ∃ id, StoreLevel.lastId db pair.1 pair.2 "Some fixed records missing"
      "Some zero records missing" = .ok id) : ∃ pkey, StoreLevel.lastPkey db last types = .ok pkey := by
  induction types generalizing last with
  | nil => exact ⟨last, rfl⟩
  | cons pair rest ih =>
    obtain ⟨id, readId⟩ := reads pair (List.mem_cons_self ..)
    obtain ⟨pkey, readRest⟩ := ih (max last (id.getD 0)) fun other member => reads other (List.mem_cons_of_mem _ member)
    exact ⟨pkey, by rw [StoreLevel.lastPkey, readId]; exact readRest⟩

theorem primaryKey_mem_dataTypes (name : TableName) : ∃ next, (next, name.table.primaryKey) ∈ StoreLevel.dataTypes := by
  cases name
  case inviteToken => exact ⟨.kEphemeralPublicKey, by decide⟩
  case ephemeralPublicKey => exact ⟨.kPeer, by decide⟩
  case peer => exact ⟨.kPeerPubKey, by decide⟩
  case peerPubKey => exact ⟨.kLocalAssoc, by decide⟩
  case localAssoc => exact ⟨.kGlobalAssoc, by decide⟩
  case globalAssoc => exact ⟨.kValidationSession, by decide⟩
  case validationSession => exact ⟨.kTokenAuth, by decide⟩
  case tokenAuth => exact ⟨.kParAvion, by decide⟩
  case parAvion => exact ⟨.kMailSent, by decide⟩
  case mailSent => exact ⟨.kAccessKey, by decide⟩
  case accessKey => exact ⟨.kBlobStore, by decide⟩
  case blobStore => exact ⟨.kLogNode, by decide⟩

theorem dataTypes_cases {pair : KeyTypeE × KeyTypeE} (member : pair ∈ StoreLevel.dataTypes) :
    pair.2 = .kNoNode ∨ ∃ name : TableName, name.table.primaryKey = pair.2 := by
  simp only [StoreLevel.dataTypes, List.mem_cons, List.not_mem_nil, or_false] at member
  rcases member with rfl | rfl | rfl | rfl | rfl | rfl | rfl | rfl | rfl | rfl | rfl | rfl | rfl
  · exact .inr ⟨.blobStore, rfl⟩
  · exact .inr ⟨.accessKey, rfl⟩
  · exact .inr ⟨.mailSent, rfl⟩
  · exact .inr ⟨.parAvion, rfl⟩
  · exact .inr ⟨.tokenAuth, rfl⟩
  · exact .inr ⟨.validationSession, rfl⟩
  · exact .inr ⟨.globalAssoc, rfl⟩
  · exact .inr ⟨.localAssoc, rfl⟩
  · exact .inr ⟨.peerPubKey, rfl⟩
  · exact .inr ⟨.peer, rfl⟩
  · exact .inr ⟨.ephemeralPublicKey, rfl⟩
  · exact .inr ⟨.inviteToken, rfl⟩
  · exact .inl rfl

theorem dataTypes_adjacent : ∀ pair ∈ StoreLevel.dataTypes, pair.1.number = pair.2.number + 1 ∧
    pair.1 ∈ StoreLevel.fenceTypes ∧ pair.2 ∈ StoreLevel.fenceTypes := by decide

/-- Opening a database reads the largest identifier of every key type. -/
theorem lastId_of_wellKeyed (keyed : WellKeyed db) {pair : KeyTypeE × KeyTypeE}
    (member : pair ∈ StoreLevel.dataTypes) (fixedMissing zeroMissing : String) :
    ∃ n, StoreLevel.lastId (StoreLevel.putFences db) pair.1 pair.2 fixedMissing zeroMissing = .ok (some n) ∧
      ((StoreLevel.putFences db).get? (encodePrimaryKey pair.2 n)).isSome ∧
      ∀ m, m < 2 ^ 64 → ((StoreLevel.putFences db).get? (encodePrimaryKey pair.2 m)).isSome → m ≤ n := by
  obtain ⟨adjacent, nextFence, lastFence⟩ := dataTypes_adjacent pair member
  have split : ∀ key value, (StoreLevel.putFences db).get? key = some value →
      db.get? key = some value ∨ ∃ keytype, key = encodePrimaryKey keytype 0 := by
    intro key value has
    rw [StoreLevel.get?_putFences] at has
    rcases Option.or_eq_some_iff.mp has with inDb | ⟨_, fence⟩
    · exact .inl inDb
    · split at fence
      · next isFence =>
        obtain ⟨keytype, _, here⟩ := isFence
        exact .inr ⟨keytype, here⟩
      · contradiction
  apply StoreLevel.lastId_eq (by omega)
  · intro key value has above below
    have typed : ∃ keytype, HasType keytype key := by
      rcases split key value has with inDb | ⟨keytype, rfl⟩
      · exact keyed.typed key value inDb
      · exact ⟨keytype, hasType_encodePrimaryKey ..⟩
    obtain ⟨keytype, ofType⟩ := typed
    -- the numbers of the two types are adjacent, so there is no third type between them
    have notLower : ¬ keytype.number < pair.2.number := fun lower =>
      above (HasType.lt ofType (hasType_encodePrimaryKey pair.2 0) lower)
    have lower : keytype.number < pair.1.number :=
      encodeKeyType_lt_iff.mp (lt_of_le_of_lt (HasType.encodeKeyType_le ofType) below)
    have same : keytype = pair.2 := KeyTypeE.number_injective (by omega)
    rwa [same] at ofType
  · intro key value has ofLast
    rcases split key value has with inDb | ⟨keytype, rfl⟩
    · exact keyed.fits pair member key value ofLast inDb
    · refine ⟨0, by omega, ?_⟩
      rw [(hasType_encodePrimaryKey keytype 0).unique ofLast]
  · exact StoreLevel.putFences_fence db lastFence
  · exact StoreLevel.putFences_fence db nextFence

/-- The last record identifier that opening a database reads is the largest one, or zero if there is none. -/
theorem WellKeyed.lastPkey_isGreatest (keyed : WellKeyed db) {pkey : ℕ}
    (readPkey : StoreLevel.lastPkey (StoreLevel.putFences db) 0 StoreLevel.dataTypes = .ok pkey) :
    IsGreatest {n | n = 0 ∨ Present db n} pkey := by
  obtain ⟨_, bounds, attained⟩ := lastPkey_eq readPkey
  constructor
  · rcases attained with start | ⟨pair, member, read⟩
    · exact .inl start
    rcases Nat.eq_zero_or_pos pkey with zero | positive
    · exact .inl zero
    obtain ⟨largest, readLargest, present, _⟩ := lastId_of_wellKeyed keyed member "Some fixed records missing"
      "Some zero records missing"
    obtain rfl : pkey = largest := Option.some.inj (Except.ok.inj (read.symm.trans readLargest))
    rw [StoreLevel.get?_putFences_primary db pair.2 (by omega)] at present
    right
    rcases dataTypes_cases member with noNode | ⟨name, table⟩
    · obtain ⟨value, has⟩ := Option.isSome_iff_exists.mp present
      rw [noNode] at has
      have zero := keyed.noNode pkey value has
      omega
    · exact ⟨name, by rw [table]; exact present⟩
  · rintro n (rfl | ⟨name, present⟩)
    · exact Nat.zero_le _
    obtain ⟨next, member⟩ := primaryKey_mem_dataTypes name
    obtain ⟨value, has⟩ := Option.isSome_iff_exists.mp present
    obtain ⟨m, word, here⟩ := keyed.fits _ member _ value (hasType_encodePrimaryKey ..) has
    obtain rfl : n = m := encodePrimaryKey_inj.mp here
    obtain ⟨largest, read, _, greatest⟩ := lastId_of_wellKeyed keyed member "Some fixed records missing"
      "Some zero records missing"
    obtain ⟨id, readId, bound⟩ := bounds _ member
    have same := Except.ok.inj (readId.symm.trans read)
    rw [same, Option.getD_some] at bound
    have inFenced : ((StoreLevel.putFences db).get? (encodePrimaryKey name.table.primaryKey n)).isSome := by
      rw [StoreLevel.get?_putFences, has]
      rfl
    exact (greatest n word inFenced).trans bound

/-- A node starts with a counter that is one or the largest identifier of its database. -/
theorem maincounter_of_init {st st' : SharedTable} (keyed : WellKeyed st.maindb)
    (init : workServerInit st = .ok st') : 1 ≤ st'.maincounter ∧
      (∀ n, Present st.maindb n → n ≤ st'.maincounter) ∧
      (st'.maincounter = 1 ∨ Present st.maindb st'.maincounter) := by
  obtain ⟨pkey, _, _, readMain, _, _, counter, _⟩ := workServerInit_eq init
  obtain ⟨_, readPkey, _⟩ := initializeStore_eq readMain
  obtain ⟨attained, greatest⟩ := keyed.lastPkey_isGreatest readPkey
  have raised : pkey ≤ st'.maincounter := by
    rw [counter]
    split <;> omega
  refine ⟨by rw [counter]; split <;> omega, fun n present => (greatest (.inr present)).trans raised, ?_⟩
  rcases Nat.eq_zero_or_pos pkey with zero | positive
  · left
    rw [counter, zero]
    rfl
  · right
    rw [counter, if_pos positive]
    exact attained.resolve_left (by omega)

end Counter

/-- A slave that starts on its own stores, replays master transactions and is elected. -/
def promotedSlave (started : SharedTable) (log : List (CommitEnv × TransactionT)) (cutoff : UInt64)
    (tries : List Bool) : SharedTable := masterUpdate cutoff tries (replayAll started log)

theorem offLog_primaryKey (st : SharedTable) (name : TableName) (n : ℕ) :
    OffLog st (encodePrimaryKey name.table.primaryKey n) := by
  have data : DataKey (encodePrimaryKey name.table.primaryKey n) :=
    ⟨name, _, List.mem_cons_self .., hasType_encodePrimaryKey ..⟩
  exact .inr data.not_log

/-- The identifiers handed out after the election are new exactly when no record that the replayed
transactions leave stored lies above one and above every record of the slave's own database. -/
theorem handedOut_new_iff {disk started : SharedTable} (keyed : WellKeyed disk.maindb)
    (init : workServerInit disk = .ok started) (log : List (CommitEnv × TransactionT)) (cutoff : UInt64)
    (tries : List Bool) :
    (∀ i n, Present (promotedSlave started log cutoff tries).maindb n →
      (promotedSlave started log cutoff tries).handedOut i ≠ n) ↔
      ∀ n, Present (applyItems .empty (writtenItems log)) n →
        n ≤ 1 ∨ ∃ own, n ≤ own ∧ Present disk.maindb own := by
  obtain ⟨positive, bounds, attained⟩ := maincounter_of_init keyed init
  have counter : (promotedSlave started log cutoff tries).maincounter = started.maincounter := by
    rw [promotedSlave, masterUpdate_maincounter, replayAll_maincounter]
  have lookup (name : TableName) (n : ℕ) :
      (promotedSlave started log cutoff tries).maindb.get? (encodePrimaryKey name.table.primaryKey n) =
        (applyItems started.maindb (writtenItems log)).get? (encodePrimaryKey name.table.primaryKey n) := by
    rw [promotedSlave, masterUpdate_maindb, replayAll_maindb started log (offLog_primaryKey ..)]
  obtain ⟨_, _, _, _, fenced, _⟩ := workServerInit_eq init
  constructor
  · rintro new n ⟨name, present⟩
    have touched : ∃ item ∈ writtenItems log, item.key = encodePrimaryKey name.table.primaryKey n := by
      by_contra untouched
      rw [applyItems_of_untouched fun item member here => untouched ⟨item, member, here⟩] at present
      contradiction
    have stays : Present (promotedSlave started log cutoff tries).maindb n :=
      ⟨name, by rw [lookup, applyItems_of_touched touched _ .empty]; exact present⟩
    have below : n ≤ started.maincounter := by
      by_contra above
      refine new (n - (started.maincounter + 1)) n stays ?_
      rw [SharedTable.handedOut_eq, counter]
      omega
    rcases attained with one | own
    · exact .inl (by omega)
    · exact .inr ⟨_, below, own⟩
  · rintro below i n ⟨name, present⟩
    rw [SharedTable.handedOut_eq, counter]
    have bound : n ≤ started.maincounter := by
      rw [lookup] at present
      by_cases touched : ∃ item ∈ writtenItems log, item.key = encodePrimaryKey name.table.primaryKey n
      · rw [applyItems_of_touched touched _ .empty] at present
        rcases below n ⟨name, present⟩ with one | ⟨own, le, inDisk⟩
        · omega
        · exact le.trans (bounds own inDisk)
      · rw [applyItems_of_untouched fun item member here => touched ⟨item, member, here⟩, fenced,
          StoreLevel.get?_putFences] at present
        cases has : disk.maindb.get? (encodePrimaryKey name.table.primaryKey n) with
        | some value => exact bounds n ⟨name, by rw [has]; rfl⟩
        | none =>
          rw [has, Option.none_or] at present
          split at present
          · next fence =>
            obtain ⟨keytype, _, here⟩ := fence
            have sameType := (hasType_encodePrimaryKey name.table.primaryKey n).unique
              (here ▸ hasType_encodePrimaryKey keytype 0)
            rw [← sameType] at here
            have zero := encodePrimaryKey_inj.mp here
            omega
          · contradiction
    omega

/-- A slave on an empty store, just started. -/
def startedEmpty : SharedTable where
  maincounter := 1
  logcounter := 1
  maindb := StoreLevel.putFences .empty

theorem workServerInit_empty : workServerInit {} = .ok startedEmpty := by decide +kernel

/-- The first record of a master, as its slave replays it. -/
def firstRecord : List (CommitEnv × TransactionT) :=
  let record : PeerT := { id := 2, name := ascii "a" }
  [({ now := 5 }, { id := 2, item := peerTable.recordItems none record, ts := 5 })]

/-- The slave that replays the first record and is elected hands out that record's identifier, and
`AddRecord` refuses the record made with it. -/
theorem promoted_slave_repeats_id :
    workServerInit {} = .ok startedEmpty ∧ (promotedSlave startedEmpty firstRecord 0 []).isMaster = true ∧
      ¬ (∀ i n, Present (promotedSlave startedEmpty firstRecord 0 []).maindb n →
        (promotedSlave startedEmpty firstRecord 0 []).handedOut i ≠ n) ∧
      peerTable.addRecord (promotedSlave startedEmpty firstRecord 0 []).maindb { id := 2, name := ascii "b" }
        {} false = .ok (false, {}) := by
  refine ⟨workServerInit_empty, by decide, fun new => ?_, by decide +kernel⟩
  have present : Present (promotedSlave startedEmpty firstRecord 0 []).maindb 2 := ⟨.peer, by decide +kernel⟩
  exact new 0 2 present (by rw [SharedTable.handedOut_eq]; decide +kernel)

theorem handedOut_new_iff_firstRecord :
    (∀ i n, Present (promotedSlave startedEmpty firstRecord 0 []).maindb n →
      (promotedSlave startedEmpty firstRecord 0 []).handedOut i ≠ n) ↔
      ∀ n, Present (applyItems .empty (writtenItems firstRecord)) n →
        n ≤ 1 ∨ ∃ own, n ≤ own ∧ Present ({} : SharedTable).maindb own := by
  refine handedOut_new_iff ⟨?_, ?_, ?_⟩ workServerInit_empty firstRecord 0 []
  · exact fun key value has => by contradiction
  · exact fun pair _ key value _ has => by contradiction
  · exact fun n value has => by contradiction

end Identt.Hrpc
