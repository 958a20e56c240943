import Mathlib.Logic.Function.Basic
import Identt.Store.StoreTable

/-! # What a table stores

A database represents a partial map from identifiers to records when each record lies under its
primary key, each unique and index key type holds exactly the keys of the stored records, each with
that record's identifier, and the fence may be there. The relation says nothing about keys of other
types, so the tables of one database, and its log, do not disturb each other.
-/

namespace Identt.Store

namespace StoreTable

variable {T : Type} (table : StoreTable T)

/-- The key types under which a record is indexed, in the order in which they are written. -/
def secondaryKeys : List KeyTypeE := table.uniqueKeys ++ table.indexKeys

/-- The record a database holds under an identifier. -/
def stored (db : DB) (n : ℕ) : Option T :=
  (db.get? (encodePrimaryKey table.primaryKey n)).bind table.parseStored

/-- The records a database holds; the fence is none of them. -/
def records (db : DB) (n : ℕ) : Option T := if n = 0 then none else table.stored db n

/-- The node kept under the keys of the record with an identifier. -/
def nodeValue (n : ℕ) : Stored := .data (.node ⟨table.primaryKey, n⟩)

structure Represents (db : DB) (records : ℕ → Option T) : Prop where
  zero : records 0 = none
  id_eq : ∀ n record, records n = some record → table.id record = n
  found : ∀ n record, records n = some record → table.notfound record = false
  primary : ∀ n, n ≠ 0 → db.get? (encodePrimaryKey table.primaryKey n) =
    (records n).map (fun record => .data (table.serialize record))
  fence : db.get? (encodePrimaryKey table.primaryKey 0) = none ∨
    db.get? (encodePrimaryKey table.primaryKey 0) = some (.data .empty)
  primary_only : ∀ key value, HasType table.primaryKey key → db.get? key = some value →
    ∃ n, key = encodePrimaryKey table.primaryKey n
  index : ∀ keytype ∈ table.secondaryKeys, ∀ key, HasType keytype key → ∀ value,
    db.get? key = some value ↔
      ∃ n record, records n = some record ∧ table.getKey record keytype false = key ∧
        value = table.nodeValue n

variable {table} {db db' : DB} {records : ℕ → Option T}

theorem mem_secondaryKeys {keytype : KeyTypeE} :
    keytype ∈ table.secondaryKeys ↔ keytype ∈ table.uniqueKeys ∨ keytype ∈ table.indexKeys :=
  List.mem_append

theorem secondaryKeys_ne_primaryKey {keytype : KeyTypeE} (member : keytype ∈ table.secondaryKeys) :
    keytype ≠ table.primaryKey := by
  rintro rfl
  exact (List.nodup_cons.mp table.keyTypes_nodup).1 member

theorem secondaryKeys_nodup : table.secondaryKeys.Nodup := (List.nodup_cons.mp table.keyTypes_nodup).2

theorem hasType_getKey {keytype : KeyTypeE} (member : keytype ∈ table.secondaryKeys) (record : T)
    (pre : Bool) : HasType keytype (table.getKey record keytype pre) :=
  table.getKey_type record keytype pre member

@[simp] theorem parseStored_serialize (record : T) :
    table.parseStored (.data (table.serialize record)) = some record := table.parse_serialize record

namespace Represents

/-- A key of a secondary type belongs to one stored record. -/
theorem unique (represents : table.Represents db records) {keytype : KeyTypeE}
    (member : keytype ∈ table.secondaryKeys) {m n : ℕ} {left right : T} (hasLeft : records m = some left)
    (hasRight : records n = some right)
    (same : table.getKey left keytype false = table.getKey right keytype false) : m = n := by
  have index := represents.index keytype member _ (hasType_getKey member right false)
  have atLeft := (index _).mpr ⟨m, left, hasLeft, same, rfl⟩
  have atRight := (index _).mpr ⟨n, right, hasRight, rfl, rfl⟩
  have nodes := Option.some.inj (atLeft.symm.trans atRight)
  simpa [nodeValue] using nodes

theorem unique_iff (represents : table.Represents db records) {keytype : KeyTypeE}
    (member : keytype ∈ table.secondaryKeys) {m n : ℕ} {left right : T} (hasLeft : records m = some left)
    (hasRight : records n = some right) :
    table.getKey left keytype false = table.getKey right keytype false ↔ m = n := by
  constructor
  · exact represents.unique member hasLeft hasRight
  · rintro rfl
    rw [Option.some.inj (hasLeft.symm.trans hasRight)]

theorem stored_eq (represents : table.Represents db records) {n : ℕ} (positive : n ≠ 0) :
    table.stored db n = records n := by
  rw [stored, represents.primary n positive]
  cases records n <;> simp

/-- The represented records are those that can be read. -/
theorem records_eq (represents : table.Represents db records) : records = table.records db := by
  funext n
  rw [StoreTable.records]
  split
  · next zero => rw [zero, represents.zero]
  · next positive => exact (represents.stored_eq positive).symm

theorem consistent (represents : table.Represents db records) : table.Represents db (table.records db) := by
  rwa [← represents.records_eq]

theorem ne_zero (represents : table.Represents db records) {n : ℕ} {record : T}
    (has : records n = some record) : n ≠ 0 := by
  rintro rfl
  rw [represents.zero] at has
  contradiction

/-- Writes to keys of other types leave what a table stores alone. -/
theorem frame (represents : table.Represents db records)
    (same : ∀ keytype ∈ table.primaryKey :: table.secondaryKeys, ∀ key, HasType keytype key →
      db'.get? key = db.get? key) : table.Represents db' records := by
  have primarySame (n : ℕ) : db'.get? (encodePrimaryKey table.primaryKey n) =
      db.get? (encodePrimaryKey table.primaryKey n) :=
    same _ (List.mem_cons_self ..) _ (hasType_encodePrimaryKey ..)
  refine ⟨represents.zero, represents.id_eq, represents.found, fun n positive => ?_, ?_, ?_, ?_⟩
  · rw [primarySame, represents.primary n positive]
  · rw [primarySame]
    exact represents.fence
  · intro key value hasType has
    rw [same _ (List.mem_cons_self ..) _ hasType] at has
    exact represents.primary_only key value hasType has
  · intro keytype member key hasType value
    rw [same _ (List.mem_cons_of_mem _ member) _ hasType]
    exact represents.index keytype member key hasType value

/-- The record under a primary key, if it is there, replaces the one asked for. -/
theorem fetch_eq (represents : table.Represents db records) {record : T} (positive : table.id record ≠ 0) :
    table.fetch db record = .ok (match records (table.id record) with
      | some found => (true, found)
      | none => (false, record)) := by
  rw [fetch, table.getKey_primary, represents.primary _ positive]
  cases records (table.id record) <;> simp

theorem getOne_primary (represents : table.Represents db records) {record : T}
    (positive : table.id record ≠ 0) :
    table.getOne db record table.primaryKey = .ok (match records (table.id record) with
      | some found => (true, found)
      | none => (false, record)) := by
  rw [getOne, if_pos rfl, represents.fetch_eq positive]

theorem getSecondaryValue_eq_some_iff (represents : table.Represents db records) {keytype : KeyTypeE}
    (member : keytype ∈ table.secondaryKeys) {record : T} {node : NodeT} :
    table.getSecondaryValue db record keytype = some node ↔
      ∃ found, records node.id = some found ∧ node.keytype = table.primaryKey ∧
        table.getKey found keytype false = table.getKey record keytype false := by
  have index := represents.index keytype member _ (hasType_getKey member record false)
  rw [getSecondaryValue, if_pos (mem_secondaryKeys.mp member), Option.bind_eq_some_iff]
  constructor
  · rintro ⟨value, has, parsed⟩
    obtain ⟨n, found, hasFound, same, rfl⟩ := (index value).mp has
    cases parsed
    exact ⟨found, hasFound, rfl, same⟩
  · rintro ⟨found, hasFound, type, same⟩
    refine ⟨table.nodeValue node.id, (index _).mpr ⟨node.id, found, hasFound, same, rfl⟩, ?_⟩
    cases node
    cases type
    rfl

/-- Looking a record up by a secondary key finds the stored record with that key. -/
theorem getOne_of_key (represents : table.Represents db records) {keytype : KeyTypeE}
    (member : keytype ∈ table.secondaryKeys) {record found : T} {n : ℕ} (has : records n = some found)
    (same : table.getKey found keytype false = table.getKey record keytype false) :
    table.getOne db record keytype = .ok (true, found) := by
  have entry := (represents.index keytype member _ (hasType_getKey member record false) _).mpr
    ⟨n, found, has, same, rfl⟩
  rw [getOne, if_neg (secondaryKeys_ne_primaryKey member), if_pos (mem_secondaryKeys.mp member), entry]
  change table.fetch db (table.setId record n) = _
  rw [represents.fetch_eq (by simpa using represents.ne_zero has), id_setId, has]

theorem getOne_of_no_key (represents : table.Represents db records) {keytype : KeyTypeE}
    (member : keytype ∈ table.secondaryKeys) {record : T}
    (absent : ∀ n found, records n = some found →
      table.getKey found keytype false ≠ table.getKey record keytype false) :
    table.getOne db record keytype = .ok (false, record) := by
  have noEntry : db.get? (table.getKey record keytype false) = none := by
    cases has : db.get? (table.getKey record keytype false) with
    | none => rfl
    | some value =>
      obtain ⟨n, found, hasFound, same, _⟩ :=
        (represents.index keytype member _ (hasType_getKey member record false) value).mp has
      exact (absent n found hasFound same).elim
  rw [getOne, if_neg (secondaryKeys_ne_primaryKey member), if_pos (mem_secondaryKeys.mp member), noEntry]
  rfl

/-- What a lookup by a secondary key can answer. -/
theorem getOne_cases (represents : table.Represents db records) {keytype : KeyTypeE}
    (member : keytype ∈ table.secondaryKeys) {record : T} {answer : Bool × T}
    (call : table.getOne db record keytype = .ok answer) :
    (∃ n, answer.1 = true ∧ records n = some answer.2 ∧
      table.getKey answer.2 keytype false = table.getKey record keytype false) ∨
    (answer = (false, record) ∧ ∀ n found, records n = some found →
      table.getKey found keytype false ≠ table.getKey record keytype false) := by
  by_cases holder : ∃ n found, records n = some found ∧
      table.getKey found keytype false = table.getKey record keytype false
  · obtain ⟨n, found, has, same⟩ := holder
    rw [represents.getOne_of_key member has same] at call
    cases call
    exact .inl ⟨n, rfl, has, same⟩
  · have absent : ∀ n found, records n = some found →
        table.getKey found keytype false ≠ table.getKey record keytype false :=
      fun n found has same => holder ⟨n, found, has, same⟩
    rw [represents.getOne_of_no_key member absent] at call
    cases call
    exact .inr ⟨rfl, absent⟩

end Represents

end StoreTable

end Identt.Store
