import Identt.Store.Represents

/-! # The items `AddRecord` and `DelRecord` append

Both calls only append items to a transaction, so their effect is a list of items. Read against a
database that represents the table, and written to it, the items of a record put exactly that record
into the represented map, and the items of a deletion take it out.
-/

namespace Identt.Store

namespace TransactionT

/-- Append items; every call that builds a transaction does only this. -/
def append (trans : TransactionT) (items : List TransItemT) : TransactionT :=
  { trans with item := trans.item ++ items }

@[simp] theorem append_item (transaction : TransactionT) (items : List TransItemT) :
    (transaction.append items).item = transaction.item ++ items := rfl

@[simp] theorem append_nil (transaction : TransactionT) : transaction.append [] = transaction := by
  simp [append]

@[simp] theorem append_append (transaction : TransactionT) (first second : List TransItemT) :
    (transaction.append first).append second = transaction.append (first ++ second) := by
  simp [append]

/-- Calls that only append, one after the other. -/
theorem foldl_append {α : Type*} {build : TransactionT → α → TransactionT} {items : α → List TransItemT}
    (appends : ∀ transaction call, build transaction call = transaction.append (items call)) (calls : List α)
    (transaction : TransactionT) : calls.foldl build transaction = transaction.append (calls.flatMap items) := by
  induction calls generalizing transaction with
  | nil => simp
  | cons call rest ih => rw [List.foldl_cons, ih, appends, append_append, List.flatMap_cons]

end TransactionT

theorem addTrans_put (transaction : TransactionT) (key : Bytes) (value : Value) :
    addTrans transaction key value false = transaction.append [⟨key, value, false⟩] := rfl

theorem addTrans_delete (transaction : TransactionT) (key : Bytes) (value : Value) :
    addTrans transaction key value true = transaction.append [⟨key, .empty, true⟩] := rfl

theorem get?_applyItems_put (db : DB) (key key' : Bytes) (value : Value) :
    (applyItems db [⟨key, value, false⟩]).get? key' =
      if key' = key then some (.data value) else db.get? key' :=
  (OrderedMap.get?_put db key key' _).trans (by congr)

theorem get?_applyItems_delete (db : DB) (key key' : Bytes) :
    (applyItems db [⟨key, .empty, true⟩]).get? key' = if key' = key then none else db.get? key' :=
  (OrderedMap.get?_erase db key key').trans (by congr)

/-- Items grouped by key type act on a key through the group of its type alone. -/
theorem get?_applyItems_flatMap {keytypes : List KeyTypeE} (nodup : keytypes.Nodup)
    {items : KeyTypeE → List TransItemT}
    (typed : ∀ keytype ∈ keytypes, ∀ item ∈ items keytype, HasType keytype item.key)
    {keytype : KeyTypeE} (member : keytype ∈ keytypes) {key : Bytes} (hasType : HasType keytype key)
    (db : DB) :
    (applyItems db (keytypes.flatMap items)).get? key = (applyItems db (items keytype)).get? key := by
  have otherType : ∀ other ∈ keytypes, other ≠ keytype → ∀ item ∈ items other, item.key ≠ key := by
    rintro other otherMember differ item itemMember rfl
    exact differ ((typed other otherMember item itemMember).unique hasType)
  obtain ⟨front, back, rfl⟩ := List.append_of_mem member
  have notFront : keytype ∉ front := fun inFront =>
    (List.nodup_append.mp nodup).2.2 keytype inFront keytype (List.mem_cons_self ..) rfl
  have notBack : keytype ∉ back :=
    (List.nodup_cons.mp (List.nodup_append.mp nodup).2.1).1
  rw [List.flatMap_append, List.flatMap_cons, applyItems_append, applyItems_append]
  rw [applyItems_of_untouched]
  · apply applyItems_congr
    apply applyItems_of_untouched
    intro item itemMember
    obtain ⟨other, inFront, ofOther⟩ := List.mem_flatMap.mp itemMember
    exact otherType other (by simp [inFront]) (by rintro rfl; exact notFront inFront) item ofOther
  · intro item itemMember
    obtain ⟨other, inBack, ofOther⟩ := List.mem_flatMap.mp itemMember
    exact otherType other (by simp [inBack]) (by rintro rfl; exact notBack inBack) item ofOther

namespace StoreTable

variable {T : Type} (table : StoreTable T)

/-- What `moveKey` appends for one key type. -/
def keyItems (old : Option T) (record : T) (keytype : KeyTypeE) : List TransItemT :=
  let new := table.getKey record keytype false
  match old with
  | some old =>
    let stale := table.getKey old keytype false
    if stale ≠ new then [⟨stale, .empty, true⟩, ⟨new, table.dumpNode record, false⟩] else []
  | none => [⟨new, table.dumpNode record, false⟩]

/-- What is put under a secondary key names the record. -/
theorem value_of_keyItems {old : Option T} {record : T} {keytype : KeyTypeE} {item : TransItemT}
    (member : item ∈ table.keyItems old record keytype) (puts : item.toDel = false) :
    item.value = table.dumpNode record := by
  cases old <;> grind [keyItems]

/-- What `addRecord` appends for a record it accepts. -/
def recordItems (old : Option T) (record : T) : List TransItemT :=
  table.secondaryKeys.flatMap (table.keyItems old record) ++
    [⟨encodePrimaryKey table.primaryKey (table.id record), table.serialize record, false⟩]

/-- What `delRecord` appends. -/
def removeItems (record : T) : List TransItemT :=
  ⟨encodePrimaryKey table.primaryKey (table.id record), .empty, true⟩ ::
    table.secondaryKeys.map fun keytype => ⟨table.getKey record keytype false, .empty, true⟩

theorem moveKey_eq (old : Option T) (record : T) (transaction : TransactionT) (keytype : KeyTypeE) :
    table.moveKey old record transaction keytype = transaction.append (table.keyItems old record keytype) := by
  cases old with
  | none => rfl
  | some old =>
    simp only [moveKey, keyItems]
    split
    · rw [addTrans_delete, addTrans_put, TransactionT.append_append]
      rfl
    · rw [TransactionT.append_nil]

theorem foldl_moveKey (old : Option T) (record : T) (keytypes : List KeyTypeE)
    (transaction : TransactionT) : keytypes.foldl (table.moveKey old record) transaction =
      transaction.append (keytypes.flatMap (table.keyItems old record)) :=
  TransactionT.foldl_append (fun transaction keytype => table.moveKey_eq old record transaction keytype) ..

theorem delRecord_eq (record : T) (transaction : TransactionT) :
    table.delRecord record transaction = if table.notfound record then (false, transaction)
      else (true, transaction.append (table.removeItems record)) := by
  have fold (keytypes : List KeyTypeE) (transaction : TransactionT) :
      keytypes.foldl (fun transaction keytype =>
        addTrans transaction (table.getKey record keytype false) .empty true) transaction =
      transaction.append (keytypes.map fun keytype => ⟨table.getKey record keytype false, .empty, true⟩) := by
    rw [TransactionT.foldl_append fun transaction keytype =>
      addTrans_delete transaction (table.getKey record keytype false) .empty, List.map_eq_flatMap]
  simp only [delRecord]
  split
  · rfl
  · rw [fold, fold, addTrans_delete]
    simp [removeItems, secondaryKeys]

theorem keyItems_hasType {old : Option T} {record : T} {keytype : KeyTypeE}
    (member : keytype ∈ table.secondaryKeys) :
    ∀ item ∈ table.keyItems old record keytype, HasType keytype item.key := by
  intro item itemMember
  cases old with
  | none =>
    obtain rfl := List.mem_singleton.mp itemMember
    exact hasType_getKey member record false
  | some old =>
    simp only [keyItems] at itemMember
    split at itemMember
    · simp only [List.mem_cons, List.not_mem_nil, or_false] at itemMember
      rcases itemMember with rfl | rfl
      · exact hasType_getKey member old false
      · exact hasType_getKey member record false
    · exact (List.not_mem_nil itemMember).elim

/-- Every item of a table is keyed by one of its key types. -/
theorem recordItems_hasType {old : Option T} {record : T} {item : TransItemT}
    (member : item ∈ table.recordItems old record) :
    ∃ keytype ∈ table.primaryKey :: table.secondaryKeys, HasType keytype item.key := by
  rcases List.mem_append.mp member with secondary | primary
  · obtain ⟨keytype, inKeys, ofKey⟩ := List.mem_flatMap.mp secondary
    exact ⟨keytype, List.mem_cons_of_mem _ inKeys, table.keyItems_hasType inKeys item ofKey⟩
  · obtain rfl := List.mem_singleton.mp primary
    exact ⟨table.primaryKey, List.mem_cons_self .., hasType_encodePrimaryKey ..⟩

/-- The only item under a primary key puts the record itself. -/
theorem mem_recordItems_primary {old : Option T} {record : T} {item : TransItemT}
    (ofPrimary : HasType table.primaryKey item.key) : item ∈ table.recordItems old record ↔
      item = ⟨encodePrimaryKey table.primaryKey (table.id record), table.serialize record, false⟩ := by
  rw [recordItems, List.mem_append, List.mem_singleton, or_iff_right]
  rintro secondary
  obtain ⟨keytype, inKeys, ofKey⟩ := List.mem_flatMap.mp secondary
  exact secondaryKeys_ne_primaryKey inKeys ((table.keyItems_hasType inKeys item ofKey).unique ofPrimary)

theorem removeItems_hasType {record : T} {item : TransItemT} (member : item ∈ table.removeItems record) :
    ∃ keytype ∈ table.primaryKey :: table.secondaryKeys, HasType keytype item.key := by
  rcases List.mem_cons.mp member with rfl | secondary
  · exact ⟨table.primaryKey, List.mem_cons_self .., hasType_encodePrimaryKey ..⟩
  · obtain ⟨keytype, inKeys, rfl⟩ := List.mem_map.mp secondary
    exact ⟨keytype, List.mem_cons_of_mem _ inKeys, hasType_getKey inKeys record false⟩

/-- An update that keeps all keys puts the record alone. -/
theorem recordItems_of_same_keys {old record : T} (same : ∀ keytype ∈ table.secondaryKeys,
    table.getKey old keytype false = table.getKey record keytype false) :
    table.recordItems (some old) record =
      [⟨encodePrimaryKey table.primaryKey (table.id record), table.serialize record, false⟩] := by
  have noItems : table.secondaryKeys.flatMap (table.keyItems (some old) record) = [] := by
    rw [List.flatMap_eq_nil_iff]
    intro keytype member
    simp [keyItems, same keytype member]
  rw [recordItems, noItems, List.nil_append]

/-- Another stored record holds one of the record's unique keys. -/
def Taken (records : ℕ → Option T) (record : T) : Prop :=
  ∃ keytype ∈ table.uniqueKeys, ∃ n other, records n = some other ∧ n ≠ table.id record ∧
    table.getKey other keytype false = table.getKey record keytype false

/-- The record is one that `addRecord` stores, whatever its `upsert` flag allows. -/
structure Acceptable (records : ℕ → Option T) (record : T) : Prop where
  id_ne_zero : table.id record ≠ 0
  found : table.notfound record = false
  free : ¬ table.Taken records record

/-- The record's keys, in the types of the index, are not another record's. -/
def Removable (records : ℕ → Option T) (record : T) : Prop :=
  ∀ keytype ∈ table.secondaryKeys, ∀ n other, records n = some other →
    (table.getKey other keytype false = table.getKey record keytype false ↔ n = table.id record)

/-- What was read of a record, for one key type, is still good enough to write it: the record is as new as it was,
or the one now stored has the key that was read, or has already the key to be written and nobody has the old one. -/
inductive Fits (records : ℕ → Option T) (record : T) (keytype : KeyTypeE) : Option T → Prop
  | new (absent : records (table.id record) = none) : Fits records record keytype none
  | kept (old now : T) (has : records (table.id record) = some now)
      (same : table.getKey now keytype false = table.getKey old keytype false) :
      Fits records record keytype (some old)
  | moved (old now : T) (has : records (table.id record) = some now)
      (same : table.getKey now keytype false = table.getKey record keytype false)
      (free : ∀ n other, records n = some other → table.getKey other keytype false ≠ table.getKey old keytype false) :
      Fits records record keytype (some old)

variable {table} {db : DB} {records : ℕ → Option T}

/-- What is stored now fits. -/
theorem fits_current (records : ℕ → Option T) (record : T) (keytype : KeyTypeE) :
    table.Fits records record keytype (records (table.id record)) := by
  cases has : records (table.id record) with
  | none => exact .new has
  | some now => exact .kept now now has rfl

theorem Acceptable.separate {record : T} (acceptable : table.Acceptable records record)
    (represents : table.Represents db records) {keytype : KeyTypeE} (member : keytype ∈ table.secondaryKeys)
    {n : ℕ} {other : T} (has : records n = some other)
    (same : table.getKey other keytype false = table.getKey record keytype false) :
    n = table.id record := by
  rcases mem_secondaryKeys.mp member with unique | index
  · by_contra differ
    exact acceptable.free ⟨keytype, unique, n, other, has, differ, same⟩
  · rw [← represents.id_eq n other has]
    exact table.getKey_index other record keytype index same

/-- A key of the primary type after the items of a record were written. -/
theorem get?_recordItems_primary {old : Option T} {record : T} {key : Bytes}
    (hasType : HasType table.primaryKey key) :
    (applyItems db (table.recordItems old record)).get? key =
      if key = encodePrimaryKey table.primaryKey (table.id record) then some (.data (table.serialize record))
      else db.get? key := by
  rw [recordItems, applyItems_append, get?_applyItems_put]
  split
  · rfl
  · apply applyItems_of_untouched
    rintro item itemMember rfl
    obtain ⟨keytype, inKeys, ofKey⟩ := List.mem_flatMap.mp itemMember
    exact secondaryKeys_ne_primaryKey inKeys ((table.keyItems_hasType inKeys item ofKey).unique hasType)

/-- A deletion takes out the keys of the record and leaves the others. -/
theorem get?_removeItems (record : T) (key : Bytes) : (applyItems db (table.removeItems record)).get? key =
    if key = encodePrimaryKey table.primaryKey (table.id record) ∨
      ∃ keytype ∈ table.secondaryKeys, key = table.getKey record keytype false
    then none else db.get? key := by
  have touched : (key = encodePrimaryKey table.primaryKey (table.id record) ∨
      ∃ keytype ∈ table.secondaryKeys, key = table.getKey record keytype false) ↔
      ∃ item ∈ table.removeItems record, item.key = key := by
    simp [removeItems, eq_comm]
  rw [if_congr touched rfl rfl]
  split
  · next deleted =>
    apply applyItems_of_deleted deleted
    intro item itemMember
    rcases List.mem_cons.mp itemMember with rfl | secondary
    · rfl
    · obtain ⟨keytype, _, rfl⟩ := List.mem_map.mp secondary
      rfl
  · next kept => exact applyItems_of_untouched fun item itemMember here => kept ⟨item, itemMember, here⟩

theorem get?_removeItems_primary {record : T} {key : Bytes} (hasType : HasType table.primaryKey key) :
    (applyItems db (table.removeItems record)).get? key =
      if key = encodePrimaryKey table.primaryKey (table.id record) then none else db.get? key := by
  rw [get?_removeItems]
  apply if_congr _ rfl rfl
  refine or_iff_left ?_
  rintro ⟨keytype, inKeys, rfl⟩
  exact secondaryKeys_ne_primaryKey inKeys ((hasType_getKey inKeys record false).unique hasType)

theorem eq_some_of_update_none {n id : ℕ} {other : T} (has : Function.update records id none n = some other) :
    n ≠ id ∧ records n = some other := by
  have differ : n ≠ id := by
    rintro rfl
    rw [Function.update_self] at has
    contradiction
  rw [Function.update_of_ne differ] at has
  exact ⟨differ, has⟩

/-- Under a key that is not the new record's, the entries are those of the other records. -/
theorem exists_update_iff {record : T} {keytype : KeyTypeE} {key : Bytes}
    (elsewhere : key ≠ table.getKey record keytype false) (value : Stored) :
    (∃ n other, Function.update records (table.id record) (some record) n = some other ∧
        table.getKey other keytype false = key ∧ value = table.nodeValue n) ↔
      ∃ n other, n ≠ table.id record ∧ records n = some other ∧
        table.getKey other keytype false = key ∧ value = table.nodeValue n := by
  refine exists_congr fun n => exists_congr fun other => ?_
  by_cases same : n = table.id record
  · subst same
    rw [Function.update_self]
    simp only [ne_eq, not_true_eq_false, false_and, iff_false, not_and]
    rintro ⟨⟩ here
    exact (elsewhere here.symm).elim
  · rw [Function.update_of_ne same]
    simp [same]

namespace Represents

theorem any_clashes_iff (represents : table.Represents db records) (record : T) :
    table.uniqueKeys.any (table.clashes db record) = true ↔ table.Taken records record := by
  rw [List.any_eq_true]
  apply exists_congr
  intro keytype
  refine and_congr_right fun unique => ?_
  have lookup (node : NodeT) : table.getSecondaryValue db record keytype = some node ↔
      ∃ other, records node.id = some other ∧ node.keytype = table.primaryKey ∧
        table.getKey other keytype false = table.getKey record keytype false :=
    represents.getSecondaryValue_eq_some_iff (mem_secondaryKeys.mpr (.inl unique))
  constructor
  · intro clash
    cases value : table.getSecondaryValue db record keytype with
    | none => simp [clashes, value] at clash
    | some node =>
      obtain ⟨other, has, _, same⟩ := (lookup node).mp value
      have differ : table.id record ≠ node.id := by simpa [clashes, value] using clash
      exact ⟨node.id, other, has, differ.symm, same⟩
  · rintro ⟨n, other, has, differ, same⟩
    have value := (lookup ⟨table.primaryKey, n⟩).mpr ⟨other, has, rfl, same⟩
    simpa [clashes, value] using Ne.symm differ

/-- When `addRecord` refuses, and what it appends otherwise. -/
theorem addRecord_eq [Inhabited T] (represents : table.Represents db records) (record : T)
    (transaction : TransactionT) (upsert : Bool) :
    (table.Acceptable records record ∧ (records (table.id record) = none ∨ upsert = true) ∧
      table.addRecord db record transaction upsert =
        .ok (true, transaction.append (table.recordItems (records (table.id record)) record))) ∨
    (¬ (table.Acceptable records record ∧ (records (table.id record) = none ∨ upsert = true)) ∧
      table.addRecord db record transaction upsert = .ok (false, transaction)) := by
  by_cases missing : table.notfound record = true
  · right
    refine ⟨fun accepted => ?_, ?_⟩
    · simp [accepted.1.found] at missing
    · simp [addRecord, missing, pure, Except.pure]
  by_cases zero : table.id record = 0
  · exact .inr ⟨fun accepted => accepted.1.id_ne_zero zero, by simp [addRecord, missing, zero, pure, Except.pure]⟩
  have probed : table.id (table.setId default (table.id record)) ≠ 0 := by simpa using zero
  have old := represents.getOne_primary probed
  rw [id_setId] at old
  by_cases taken : table.Taken records record
  · right
    refine ⟨fun accepted => accepted.1.free taken, ?_⟩
    have clash := (represents.any_clashes_iff record).mpr taken
    cases has : records (table.id record) <;>
      simp [addRecord, missing, zero, old, has, clash, pure, Except.pure, bind, Except.bind]
  have acceptable : table.Acceptable records record := ⟨zero, by simpa using missing, taken⟩
  have noClash : table.uniqueKeys.any (table.clashes db record) = false :=
    Bool.eq_false_iff.mpr fun clash => taken ((represents.any_clashes_iff record).mp clash)
  cases has : records (table.id record) with
  | none =>
    left
    refine ⟨acceptable, .inl rfl, ?_⟩
    simp [addRecord, missing, zero, old, has, noClash, pure, Except.pure, bind, Except.bind,
      foldl_moveKey, recordItems, secondaryKeys, addTrans_put, table.getKey_primary]
  | some stored =>
    cases upsert with
    | false =>
      right
      refine ⟨by simp, ?_⟩
      simp [addRecord, missing, zero, old, has, pure, Except.pure, bind, Except.bind]
    | true =>
      left
      refine ⟨acceptable, .inr rfl, ?_⟩
      simp [addRecord, missing, zero, old, has, noClash, pure, Except.pure, bind, Except.bind,
        foldl_moveKey, recordItems, secondaryKeys, addTrans_put, table.getKey_primary]

/-- A key of a secondary type after the items of a record were written. -/
theorem get?_recordItems (represents : table.Represents db records) {record : T} {keytype : KeyTypeE}
    (member : keytype ∈ table.secondaryKeys) {old : Option T} (fits : table.Fits records record keytype old)
    {key : Bytes} (hasType : HasType keytype key) :
    (applyItems db (table.recordItems old record)).get? key =
      if key = table.getKey record keytype false then some (table.nodeValue (table.id record))
      else if ∃ now, records (table.id record) = some now ∧ table.getKey now keytype false = key then none
      else db.get? key := by
  have primaryKey : ∀ item ∈ [(⟨encodePrimaryKey table.primaryKey (table.id record), table.serialize record,
      false⟩ : TransItemT)], item.key ≠ key := by
    rintro item itemMember rfl
    obtain rfl := List.mem_singleton.mp itemMember
    exact secondaryKeys_ne_primaryKey member (hasType.unique (hasType_encodePrimaryKey ..))
  rw [recordItems, applyItems_append, applyItems_of_untouched primaryKey,
    get?_applyItems_flatMap secondaryKeys_nodup (fun _ inKeys => table.keyItems_hasType inKeys) member hasType]
  cases fits with
  | new absent =>
    simp only [keyItems, get?_applyItems_put, absent, reduceCtorEq, false_and, exists_false, if_false]
    rfl
  | kept old now has kept =>
    simp only [keyItems, has, Option.some.injEq, exists_eq_left', kept]
    split
    · next moved =>
      rw [← List.singleton_append, applyItems_append, get?_applyItems_put, get?_applyItems_delete]
      simp only [@eq_comm _ key (table.getKey old keytype false)]
      rfl
    · next unmoved =>
      have same : table.getKey old keytype false = table.getKey record keytype false := not_not.mp unmoved
      rw [applyItems_nil]
      split
      · next here =>
        rw [here]
        exact (represents.index keytype member _ (hasType_getKey member record false) _).mpr
          ⟨_, now, has, kept.trans same, rfl⟩
      · next elsewhere => rw [if_neg (by rw [same]; exact Ne.symm elsewhere)]
  | moved old now has arrived free =>
    have stale : table.getKey old keytype false ≠ table.getKey record keytype false := fun same =>
      free _ now has (arrived.trans same.symm)
    simp only [keyItems, has, Option.some.injEq, exists_eq_left', arrived, if_pos stale]
    rw [← List.singleton_append, applyItems_append, get?_applyItems_put, get?_applyItems_delete]
    split
    · rfl
    · next elsewhere =>
      rw [if_neg (Ne.symm elsewhere)]
      split
      · next here =>
        -- nobody has the old key any more
        cases bound : db.get? key with
        | none => rfl
        | some value =>
          obtain ⟨n, other, hasOther, same, _⟩ := (represents.index keytype member key hasType value).mp bound
          exact (free n other hasOther (same.trans here)).elim
      · rfl

/-- Writing the items of an acceptable record, made from what fits, stores exactly that record. -/
theorem add_of_fits (represents : table.Represents db records) {record : T}
    (acceptable : table.Acceptable records record) {old : Option T}
    (fits : ∀ keytype ∈ table.secondaryKeys, table.Fits records record keytype old) :
    table.Represents (applyItems db (table.recordItems old record))
      (Function.update records (table.id record) (some record)) := by
  constructor
  case zero => rw [Function.update_of_ne acceptable.id_ne_zero.symm, represents.zero]
  case id_eq =>
    intro n other has
    by_cases same : n = table.id record
    · subst same
      rw [Function.update_self] at has
      rw [Option.some.inj has]
    · rw [Function.update_of_ne same] at has
      exact represents.id_eq n other has
  case found =>
    intro n other has
    by_cases same : n = table.id record
    · subst same
      rw [Function.update_self] at has
      rw [← Option.some.inj has]
      exact acceptable.found
    · rw [Function.update_of_ne same] at has
      exact represents.found n other has
  case primary =>
    intro n positive
    simp only [get?_recordItems_primary (hasType_encodePrimaryKey ..), encodePrimaryKey_inj]
    by_cases same : n = table.id record
    · rw [if_pos same, same, Function.update_self, Option.map_some]
    · rw [if_neg same, Function.update_of_ne same, represents.primary n positive]
  case fence =>
    simp only [get?_recordItems_primary (hasType_encodePrimaryKey ..), encodePrimaryKey_inj,
      if_neg acceptable.id_ne_zero.symm]
    exact represents.fence
  case primary_only =>
    intro key value hasType has
    rw [get?_recordItems_primary hasType] at has
    split at has
    · next here => exact ⟨_, here⟩
    · exact represents.primary_only key value hasType has
  case index =>
    intro keytype member key hasType value
    rw [represents.get?_recordItems member (fits keytype member) hasType]
    -- the new record's key first, then its old key, then keys of other records
    split
    · next here =>
      constructor
      · rintro ⟨⟩
        exact ⟨_, record, Function.update_self .., here.symm, rfl⟩
      · rintro ⟨n, other, has, same, rfl⟩
        by_cases isRecord : n = table.id record
        · rw [isRecord]
        · rw [Function.update_of_ne isRecord] at has
          exact (isRecord (acceptable.separate represents member has (same.trans here))).elim
    · next elsewhere =>
      rw [exists_update_iff elsewhere]
      split
      · next stale =>
        obtain ⟨old, hasOld, rfl⟩ := stale
        simp only [reduceCtorEq, false_iff]
        rintro ⟨n, other, differ, has, same, _⟩
        exact differ (represents.unique member has hasOld same)
      · next fresh =>
        rw [represents.index keytype member key hasType value]
        refine exists_congr fun n => exists_congr fun other => ⟨fun entry => ⟨?_, entry⟩, And.right⟩
        rintro rfl
        exact fresh ⟨other, entry.1, entry.2.1⟩

theorem add (represents : table.Represents db records) {record : T}
    (acceptable : table.Acceptable records record) :
    table.Represents (applyItems db (table.recordItems (records (table.id record)) record))
      (Function.update records (table.id record) (some record)) :=
  represents.add_of_fits acceptable fun keytype _ => fits_current records record keytype

/-- Writing the items of a deletion takes the record out. -/
theorem remove (represents : table.Represents db records) {record : T}
    (removable : table.Removable records record) :
    table.Represents (applyItems db (table.removeItems record))
      (Function.update records (table.id record) none) := by
  constructor
  case zero =>
    by_cases same : 0 = table.id record
    · rw [same, Function.update_self]
    · rw [Function.update_of_ne same, represents.zero]
  case id_eq => exact fun n other has => represents.id_eq n other (eq_some_of_update_none has).2
  case found => exact fun n other has => represents.found n other (eq_some_of_update_none has).2
  case primary =>
    intro n positive
    simp only [get?_removeItems_primary (hasType_encodePrimaryKey ..), encodePrimaryKey_inj]
    by_cases same : n = table.id record
    · rw [if_pos same, same, Function.update_self, Option.map_none]
    · rw [if_neg same, Function.update_of_ne same, represents.primary n positive]
  case fence =>
    rw [get?_removeItems_primary (hasType_encodePrimaryKey ..)]
    split
    · exact .inl rfl
    · exact represents.fence
  case primary_only =>
    intro key value hasType has
    rw [get?_removeItems_primary hasType] at has
    split at has
    · contradiction
    · exact represents.primary_only key value hasType has
  case index =>
    intro keytype member key hasType value
    have otherKeys : (key = encodePrimaryKey table.primaryKey (table.id record) ∨
        ∃ other ∈ table.secondaryKeys, key = table.getKey record other false) ↔
        key = table.getKey record keytype false := by
      constructor
      · rintro (rfl | ⟨other, inKeys, rfl⟩)
        · exact (secondaryKeys_ne_primaryKey member (hasType.unique (hasType_encodePrimaryKey ..))).elim
        · rw [(hasType_getKey inKeys record false).unique hasType]
      · exact fun here => .inr ⟨keytype, member, here⟩
    rw [get?_removeItems, if_congr otherKeys rfl rfl]
    split
    · next here =>
      simp only [reduceCtorEq, false_iff]
      rintro ⟨n, other, has, same, _⟩
      obtain ⟨differ, hasOther⟩ := eq_some_of_update_none has
      exact differ ((removable keytype member n other hasOther).mp (same.trans here))
    · next elsewhere =>
      rw [represents.index keytype member key hasType value]
      refine exists_congr fun n => exists_congr fun other => ⟨?_, ?_⟩
      · rintro ⟨has, same, node⟩
        have differ : n ≠ table.id record := fun isRecord =>
          elsewhere (same.symm.trans ((removable keytype member n other has).mpr isRecord))
        exact ⟨by rw [Function.update_of_ne differ, has], same, node⟩
      · rintro ⟨has, entry⟩
        exact ⟨(eq_some_of_update_none has).2, entry⟩

/-- A stored record can be removed. -/
theorem removable (represents : table.Represents db records) {n : ℕ} {record : T}
    (has : records n = some record) : table.Removable records record := by
  intro keytype member m other hasOther
  rw [represents.unique_iff member hasOther has, represents.id_eq n record has]

end Represents

end StoreTable

end Identt.Store
