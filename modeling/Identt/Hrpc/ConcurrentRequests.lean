import Identt.Hrpc.WaitingRequests

/-! # Requests that overlap

The master serves its requests in parallel. Each first reads, which builds its transaction against the data of
that moment, and commits later; in between others may commit. `AddRecord` looks for a record's unique keys
among what is stored when it reads, and nothing looks again when the record is written.
-/

namespace Identt.Hrpc

open Store Query ReadM StoreTrans

/-- The master, and what the requests that have read but not committed yet are going to commit. -/
structure Concurrent where
  node : SharedTable
  waiting : List (Prepared MasterRequest) := []

inductive ConcurrentStep where
  | read (request : MasterRequest) (env : ActionEnv)
  | commit (index : ℕ) (env : CommitEnv)

def concurrentStep (s : Concurrent) : ConcurrentStep → Concurrent
  | .read request env =>
    match (request.read s.node env).run s.node.maincounter with
    | (.ok prepared, counter) =>
      { node := { s.node with maincounter := counter }, waiting := s.waiting ++ [prepared] }
    | (.error _, counter) => { s with node := { s.node with maincounter := counter } }
  | .commit index env =>
    match s.waiting[index]? with
    | none => s
    | some prepared => { node := (finish env s.node prepared).2, waiting := s.waiting.eraseIdx index }

/-- No two stored records of a table have the same unique key, and every entry of a unique key holds the identifier
of a stored record that has it. -/
def UniqueKeysHold (db : DB) : Prop :=
  ∀ name : TableName, ∀ keytype ∈ name.table.uniqueKeys,
    (∀ m n left right, worldOf db name m = some left → worldOf db name n = some right →
      name.table.getKey left keytype false = name.table.getKey right keytype false → m = n) ∧
    ∀ key value, HasType keytype key → db.get? key = some value →
      ∃ n record, worldOf db name n = some record ∧ name.table.getKey record keytype false = key ∧
        value = name.table.nodeValue n

/-- The transaction puts the record. -/
def Puts (transaction : TransactionT) (name : TableName) (record : name.Record) : Prop :=
  (⟨encodePrimaryKey name.table.primaryKey (name.table.id record), name.table.serialize record, false⟩ : TransItemT) ∈
    transaction.item

/-- A commit whose writes succeed puts no record that has a unique key of another one that is stored now. -/
def Unclashing (s : Concurrent) : ConcurrentStep → Prop
  | .read _ _ => True
  | .commit index env => ∀ prepared transaction, s.waiting[index]? = some prepared →
      prepared.trans = some transaction → env.logPut = true → env.dataWrite = true →
      ∀ (name : TableName) (record : name.Record), Puts transaction name record →
        ¬ name.table.Taken (worldOf s.node.maindb name) record

theorem uniqueKeysHold_of_invariant {db : DB} (invariant : TableInvariant db) : UniqueKeysHold db := by
  intro name keytype unique
  have member : keytype ∈ name.table.secondaryKeys := StoreTable.mem_secondaryKeys.mpr (.inl unique)
  exact ⟨fun m n left right hasLeft hasRight same => (invariant name).unique member hasLeft hasRight same,
    fun key value hasType has => ((invariant name).index keytype member key hasType value).mp has⟩

/-- A request that waits, with the reads that its transaction was built of. -/
structure Pending where
  prepared : Prepared MasterRequest
  reading : Reading

/-- The transaction of a waiting request holds the items of its operations, which are still good. -/
structure Pending.Good (pending : Pending) (st : SharedTable) : Prop where
  items : ∀ transaction, pending.prepared.trans = some transaction → transaction.item = pending.reading.items
  waits : pending.reading.Waits (worldOf st.maindb)
  taken : pending.reading.hi ≤ st.maincounter

/-- The tables keep their invariant, and what waits is good. -/
structure Sound (s : Concurrent) : Prop where
  invariant : TableInvariant s.node.maindb
  pending : ∃ pending : List Pending, pending.map Pending.prepared = s.waiting ∧
    (∀ p ∈ pending, p.Good s.node) ∧ pending.Pairwise fun p q => p.reading.Apart q.reading

/-- A request that throws, or has nothing to commit. -/
theorem waits_nil (world : World) (lo hi : ℕ) : Reading.Waits { before := world, ops := [], lo := lo, hi := hi } world :=
  ⟨fun _ member => absurd member List.not_mem_nil, fun _ member => absurd member List.not_mem_nil, .nil, .nil,
    fun _ member => absurd member List.not_mem_nil⟩

/-- What a request has read when it starts to wait. -/
theorem good_of_read {st : SharedTable} (invariant : TableInvariant st.maindb) {request : MasterRequest} {env : ActionEnv}
    {prepared : Prepared MasterRequest} {counter : ℕ}
    (ran : (request.read st env).run st.maincounter = (.ok prepared, counter)) :
    ∃ reading, reading.lo = st.maincounter ∧ Pending.Good ⟨prepared, reading⟩ { st with maincounter := counter } := by
  cases commits : prepared.trans with
  | none =>
    refine ⟨{ before := worldOf st.maindb, ops := [], lo := st.maincounter, hi := counter }, rfl, ?_,
      waits_nil .., le_rfl⟩
    intro transaction here
    rw [commits] at here
    contradiction
  | some transaction =>
    obtain ⟨ops, writes, built⟩ := read_writes invariant ran commits
    refine ⟨{ before := worldOf st.maindb, ops := ops, lo := st.maincounter, hi := counter }, rfl, ?_,
      writes.waits invariant built.accepted built.separate, le_rfl⟩
    intro other here
    obtain rfl := Option.some.inj (commits.symm.trans here)
    exact built.items

theorem Sound.read {s : Concurrent} (sound : Sound s) (request : MasterRequest) (env : ActionEnv) :
    Sound (concurrentStep s (.read request env)) := by
  obtain ⟨pending, isWaiting, good, apart⟩ := sound.pending
  rw [concurrentStep]
  cases ran : (request.read s.node env).run s.node.maincounter with
  | mk result counter =>
    have grows := (request.read s.node env).grows s.node.maincounter
    rw [ran] at grows
    have stillGood (p : Pending) (member : p ∈ pending) : p.Good { s.node with maincounter := counter } :=
      ⟨(good p member).items, (good p member).waits, (good p member).taken.trans grows⟩
    cases result with
    | error e => exact ⟨sound.invariant, pending, isWaiting, stillGood, apart⟩
    | ok prepared =>
      obtain ⟨reading, start, goodNew⟩ := good_of_read sound.invariant ran
      refine ⟨sound.invariant, pending ++ [⟨prepared, reading⟩], by simp [isWaiting], fun p member => ?_, ?_⟩
      · rcases List.mem_append.mp member with old | isNew
        · exact stillGood p old
        · rw [List.mem_singleton.mp isNew]
          exact goodNew
      · refine List.pairwise_append.mpr ⟨apart, List.pairwise_singleton .., fun p member q isNew => ?_⟩
        rw [List.mem_singleton.mp isNew]
        refine .inl ?_
        rw [start]
        exact (good p member).taken

/-- What the commit of a waiting request leaves under the keys of the tables. -/
theorem finish_data (env : CommitEnv) (st : SharedTable) {prepared : Prepared MasterRequest} {transaction : TransactionT}
    (commits : prepared.trans = some transaction) {key : Bytes} (data : DataKey key) :
    (finish env st prepared).2.maindb.get? key =
      (applyItems st.maindb (if env.logPut && env.dataWrite then transaction.item else [])).get? key := by
  rw [finish_snd, commits]
  exact commit_offLog env st transaction true (offLog_of_dataKey st data)

theorem finish_maincounter (env : CommitEnv) (st : SharedTable) (prepared : Prepared MasterRequest) :
    (finish env st prepared).2.maincounter = st.maincounter := by
  rw [finish_snd]
  cases prepared.trans with
  | none => rfl
  | some transaction => exact commit_maincounter env st transaction true

/-- The tables after the commit of a waiting request: as before, or with all its operations carried out. -/
theorem Pending.Good.finish_cases {pending : Pending} {st : SharedTable} (good : pending.Good st)
    (invariant : TableInvariant st.maindb) (env : CommitEnv)
    (unclashing : ∀ transaction, pending.prepared.trans = some transaction → env.logPut = true → env.dataWrite = true →
      ∀ (name : TableName) (record : name.Record), Puts transaction name record →
        ¬ name.table.Taken (worldOf st.maindb name) record) :
    RepresentsAll (finish env st pending.prepared).2.maindb (worldOf st.maindb) ∨
      RepresentsAll (finish env st pending.prepared).2.maindb
        (pending.reading.ops.foldl TableOp.apply (worldOf st.maindb)) := by
  cases commits : pending.prepared.trans with
  | none =>
    left
    rw [finish_snd, commits]
    exact invariant
  | some transaction =>
    have data (key : Bytes) (isData : DataKey key) := finish_data env st commits isData
    by_cases written : (env.logPut && env.dataWrite) = true
    · right
      obtain ⟨logged, wrote⟩ := (Bool.and_eq_true _ _).mp written
      simp only [written, if_true, good.items transaction commits] at data
      refine (good.waits.commits invariant fun name record member => ?_).frame data
      refine unclashing transaction commits logged wrote name record ?_
      rw [Puts, good.items transaction commits]
      exact List.mem_flatMap.mpr ⟨_, member, TableOp.put_mem_items_iff.mpr ⟨rfl, rfl⟩⟩
    · left
      simp only [Bool.eq_false_iff.mpr written, Bool.false_eq_true, if_false, applyItems_nil] at data
      exact RepresentsAll.frame invariant data

/-- A waiting request loses nothing when another one commits. -/
theorem Pending.Good.after {p q : Pending} {st : SharedTable} (good : p.Good st) (other : q.Good st)
    (apart : p.reading.Apart q.reading) {env : CommitEnv}
    (outcome : RepresentsAll (finish env st q.prepared).2.maindb (worldOf st.maindb) ∨
      RepresentsAll (finish env st q.prepared).2.maindb (q.reading.ops.foldl TableOp.apply (worldOf st.maindb))) :
    p.Good (finish env st q.prepared).2 := by
  refine ⟨good.items, ?_, ?_⟩
  · rcases outcome with same | written
    · rw [← same.world_eq]
      exact good.waits
    · rw [← written.world_eq]
      exact ⟨fun op member => good.waits.standing_after other.waits apart member, good.waits.wellFormed,
        good.waits.separate, good.waits.alone, good.waits.pairs⟩
  · rw [finish_maincounter]
    exact good.taken

theorem Reading.Apart.symm {reading other : Reading} (apart : reading.Apart other) : other.Apart reading := Or.symm apart

theorem Sound.commit {s : Concurrent} (sound : Sound s) {index : ℕ} {env : CommitEnv}
    (unclashing : Unclashing s (.commit index env)) : Sound (concurrentStep s (.commit index env)) := by
  obtain ⟨pending, isWaiting, good, apart⟩ := sound.pending
  rw [concurrentStep]
  cases here : s.waiting[index]? with
  | none => exact sound
  | some prepared =>
    -- the request that commits, among those read before it and those read after it
    rw [← isWaiting, List.getElem?_map, Option.map_eq_some_iff] at here
    obtain ⟨p, atIndex, rfl⟩ := here
    obtain ⟨bound, isP⟩ := List.getElem?_eq_some_iff.mp atIndex
    have split : pending = pending.take index ++ p :: pending.drop (index + 1) := by
      rw [← isP, List.getElem_cons_drop, List.take_append_drop]
    have rest : s.waiting.eraseIdx index =
        (pending.take index ++ pending.drop (index + 1)).map Pending.prepared := by
      rw [← isWaiting, List.eraseIdx_eq_take_drop_succ, List.map_append, List.map_take, List.map_drop]
    generalize pending.take index = front, pending.drop (index + 1) = back at split rest
    subst split
    obtain ⟨apartFront, apartBack, crossed⟩ := List.pairwise_append.mp apart
    obtain ⟨apartP, apartBack⟩ := List.pairwise_cons.mp apartBack
    have goodP := good p (by simp)
    have outcome := goodP.finish_cases sound.invariant env fun transaction commits =>
      unclashing p.prepared transaction (by rw [← isWaiting, List.getElem?_map, atIndex]; rfl) commits
    simp only
    refine ⟨?_, front ++ back, rest.symm, fun q member => ?_, ?_⟩
    · rcases outcome with same | written
      · exact same.invariant
      · exact written.invariant
    · have apartQ : q.reading.Apart p.reading := by
        rcases List.mem_append.mp member with inFront | inBack
        · exact crossed q inFront p (List.mem_cons_self ..)
        · exact (apartP q inBack).symm
      have goodQ := good q (by
        rcases List.mem_append.mp member with inFront | inBack
        · exact List.mem_append_left _ inFront
        · exact List.mem_append_right _ (List.mem_cons_of_mem _ inBack))
      exact goodQ.after goodP apartQ outcome
    · exact List.pairwise_append.mpr ⟨apartFront, apartBack, fun q inFront r inBack =>
        crossed q inFront r (List.mem_cons_of_mem _ inBack)⟩

/-- In a table with unique keys, the items of a waiting request put one record only under primary keys. -/
theorem Reading.Waits.only_put {reading : Reading} {now : World} (waits : reading.Waits now) {name : TableName}
    {record : name.Record} (member : .add name record ∈ reading.ops) (unique : name.table.uniqueKeys ≠ [])
    {item : TransItemT} (inItems : item ∈ reading.items) (ofPrimary : HasType name.table.primaryKey item.key) :
    item = ⟨encodePrimaryKey name.table.primaryKey (name.table.id record), name.table.serialize record, false⟩ := by
  obtain ⟨op, inOps, ofOp⟩ := List.mem_flatMap.mp inItems
  obtain ⟨keytype, ofName, hasType⟩ := TableOp.items_dataKey ofOp
  have sameName : op.name = name := by
    by_contra differ
    exact TableName.keyTypes_disjoint differ ofName (hasType.unique ofPrimary ▸ List.mem_cons_self ..)
  have isAdd : op = .add name record := by
    by_contra differ
    have symmetric : Std.Symm fun first second : TableOp =>
        second.name = first.name → second.name.table.uniqueKeys = [] :=
      ⟨fun first second noUnique same => same ▸ noUnique same.symm⟩
    have alone := waits.alone.forall member inOps (Ne.symm differ) sameName
    rw [sameName] at alone
    exact unique alone
  rw [isAdd] at ofOp
  exact (StoreTable.mem_recordItems_primary _ ofPrimary).mp ofOp

/-- The commit of a record whose unique key was taken leaves two records with one key. -/
theorem Pending.Good.clash {pending : Pending} {st : SharedTable} (good : pending.Good st)
    (invariant : TableInvariant st.maindb) {env : CommitEnv} {transaction : TransactionT}
    (commits : pending.prepared.trans = some transaction) (logged : env.logPut = true) (written : env.dataWrite = true)
    {name : TableName} {record : name.Record} (puts : Puts transaction name record)
    (taken : name.table.Taken (worldOf st.maindb name) record) :
    ¬ UniqueKeysHold (finish env st pending.prepared).2.maindb := by
  intro holds
  obtain ⟨keytype, unique, n, other, has, differ, same⟩ := taken
  have hasUnique : name.table.uniqueKeys ≠ [] := List.ne_nil_of_mem unique
  have items := good.items transaction commits
  rw [Puts, items] at puts
  obtain ⟨op, inOps, ofOp⟩ := List.mem_flatMap.mp puts
  obtain ⟨rfl, _⟩ := TableOp.put_mem_items_iff.mp ofOp
  have data (m : ℕ) : (finish env st pending.prepared).2.maindb.get? (encodePrimaryKey name.table.primaryKey m) =
      (applyItems st.maindb pending.reading.items).get? (encodePrimaryKey name.table.primaryKey m) := by
    rw [finish_data env st commits ⟨name, _, List.mem_cons_self .., hasType_encodePrimaryKey ..⟩, logged, written,
      items]
    rfl
  have onlyPut {item : TransItemT} (member : item ∈ pending.reading.items) {m : ℕ}
      (here : item.key = encodePrimaryKey name.table.primaryKey m) :=
    good.waits.only_put inOps hasUnique member (here ▸ hasType_encodePrimaryKey ..)
  have hasNew : worldOf (finish env st pending.prepared).2.maindb name (name.table.id record) = some record := by
    change name.table.records _ _ = _
    rw [StoreTable.records, if_neg (good.waits.wellFormed _ inOps).1, StoreTable.stored, data,
      applyItems_of_put ⟨_, puts, rfl⟩ fun item member here => onlyPut member here]
    exact StoreTable.parseStored_serialize record
  have hasOther : worldOf (finish env st pending.prepared).2.maindb name n = some other := by
    change name.table.records _ _ = _
    rw [StoreTable.records, if_neg ((invariant name).ne_zero has), StoreTable.stored, data,
      applyItems_of_untouched fun item member here => differ (encodePrimaryKey_inj.mp
        (here.symm.trans (congrArg TransItemT.key (onlyPut member here))))]
    exact ((invariant name).stored_eq ((invariant name).ne_zero has)).trans has
  exact differ ((holds name keytype unique).1 n _ other record hasOther hasNew same)

/-- One step keeps the unique keys exactly if it does not clash. -/
theorem Sound.step_iff {s : Concurrent} (sound : Sound s) (label : ConcurrentStep) :
    UniqueKeysHold (concurrentStep s label).node.maindb ↔ Unclashing s label := by
  constructor
  · intro holds
    cases label with
    | read request env => trivial
    | commit index env =>
      intro prepared transaction here commits logged written name record puts taken
      obtain ⟨pending, isWaiting, good, _⟩ := sound.pending
      rw [concurrentStep, here] at holds
      rw [← isWaiting, List.getElem?_map, Option.map_eq_some_iff] at here
      obtain ⟨p, atIndex, rfl⟩ := here
      exact (good p (List.mem_of_getElem? atIndex)).clash sound.invariant commits logged written puts taken holds
  · intro unclashing
    cases label with
    | read request env => exact uniqueKeysHold_of_invariant (sound.read request env).invariant
    | commit index env => exact uniqueKeysHold_of_invariant (sound.commit unclashing).invariant

theorem Sound.step {s : Concurrent} (sound : Sound s) {label : ConcurrentStep} (unclashing : Unclashing s label) :
    Sound (concurrentStep s label) := by
  cases label with
  | read request env => exact sound.read request env
  | commit index env => exact sound.commit unclashing

/-- In every interleaving of the reads and commits of requests, from tables that satisfy their invariant, the unique
keys hold in every state exactly if no commit puts a record with a unique key of another one stored by then;
and then the whole invariant of the tables holds in every state. -/
theorem uniqueKeys_iff_unclashing {start : Concurrent} (invariant : TableInvariant start.node.maindb)
    (idle : start.waiting = []) (labels : List ConcurrentStep) :
    ((∀ i, UniqueKeysHold (Run.final concurrentStep start (labels.take i)).node.maindb) ↔
      Run.Guarded concurrentStep Unclashing start labels) ∧
    (Run.Guarded concurrentStep Unclashing start labels →
      ∀ i, TableInvariant (Run.final concurrentStep start (labels.take i)).node.maindb) := by
  have sound : Sound start := ⟨invariant, [], idle.symm, nofun, .nil⟩
  constructor
  · exact @Run.weak_iff_guarded _ _ concurrentStep (fun s => UniqueKeysHold s.node.maindb) Sound Unclashing
      (fun s sound => uniqueKeysHold_of_invariant sound.invariant) (fun s label sound => sound.step_iff label)
      (fun s label sound unclashing => sound.step unclashing) start sound labels
  · intro guarded i
    have throughout := @Run.invariant_of_guarded _ _ concurrentStep Sound Unclashing
      (fun s label sound unclashing => sound.step unclashing) start sound labels guarded i
    exact throughout.invariant

/-- Two requests open the same session, and neither sees the other. -/
def doubleOpen : List ConcurrentStep :=
  [.read (tokenRequest "a@x.com" "q" 1) { currtime := 1000000, commit := { now := 1000000 } },
    .read (tokenRequest "a@x.com" "q" 1) { currtime := 1000001, commit := { now := 1000001 } },
    .commit 0 { now := 1000002 }, .commit 0 { now := 1000003 }]

/-- Both sessions are stored. -/
theorem doubleOpen_clashes : TableInvariant emptyMaster.maindb ∧
    ¬ ∀ i, UniqueKeysHold (Run.final concurrentStep { node := emptyMaster } (doubleOpen.take i)).node.maindb := by
  refine ⟨tableInvariant_putFences, fun holds => ?_⟩
  have key (n : ℕ) (opened : n = 2 ∨ n = 5) :
      (worldOf (Run.final concurrentStep { node := emptyMaster } (doubleOpen.take 4)).node.maindb
        .validationSession n).map (fun session => (session.medium, session.address, session.clientSecret)) =
          some (ascii "email", ascii "a@x.com", ascii "q") := by
    rcases opened with rfl | rfl <;> decide +kernel
  obtain ⟨first, hasFirst, fields⟩ := Option.map_eq_some_iff.mp (key 2 (.inl rfl))
  obtain ⟨second, hasSecond, fields'⟩ := Option.map_eq_some_iff.mp (key 5 (.inr rfl))
  simp only [Prod.mk.injEq] at fields fields'
  have same : first.getKey .uValidationSessionMediumAddressClientSecret false =
      second.getKey .uValidationSessionMediumAddressClientSecret false := by
    simp only [ValidationSessionT.getKey, fields, fields']
  have collides := (holds 4 .validationSession _ (List.mem_singleton_self _)).1 2 5 first second hasFirst hasSecond same
  contradiction

theorem uniqueKeys_iff_unclashing_doubleOpen :
    (∀ i, UniqueKeysHold (Run.final concurrentStep { node := emptyMaster } (doubleOpen.take i)).node.maindb) ↔
      Run.Guarded concurrentStep Unclashing { node := emptyMaster } doubleOpen :=
  (@uniqueKeys_iff_unclashing { node := emptyMaster } tableInvariant_putFences rfl doubleOpen).1

end Identt.Hrpc
