import Identt.Store.RecordItems
import Identt.Store.Tables

/-! # All tables of one database

A world gives every table of the repository its partial map of records. One transaction may hold the
items of several calls, all made against the database before the transaction is committed. Calls
that leave each other's reads alone act on the world one after the other.
-/

namespace Identt.Store

abbrev World := (name : TableName) → ℕ → Option name.Record

/-- Every table of the repository represents its part of the world. -/
def RepresentsAll (db : DB) (world : World) : Prop := ∀ name : TableName, name.table.Represents db (world name)

/-- The records that can be read from a database. -/
def worldOf (db : DB) : World := fun name => name.table.records db

/-- The invariant of every table: records lie under their own primary keys, the entries of each index
are the keys of the stored records with their identifiers, and so no unique key belongs to two. -/
def TableInvariant (db : DB) : Prop := RepresentsAll db (worldOf db)

theorem RepresentsAll.world_eq {db : DB} {world : World} (represents : RepresentsAll db world) :
    world = worldOf db := by
  funext name
  exact (represents name).records_eq

theorem RepresentsAll.invariant {db : DB} {world : World} (represents : RepresentsAll db world) :
    TableInvariant db := fun name => (represents name).consistent

/-- The keys of all tables; `init` makes sure that the log keeps to other keys. -/
def DataKey (key : Bytes) : Prop := ∃ name : TableName, ∃ keytype ∈ name.keyTypes, HasType keytype key

theorem DataKey.not_log {key : Bytes} (data : DataKey key) : ¬ HasType .kLogNode key := by
  obtain ⟨name, keytype, member, hasType⟩ := data
  intro log
  exact name.kLogNode_notMem (log.unique hasType ▸ member)

/-- A call of `AddRecord` that is going to store its record, or of `DelRecord`. -/
inductive TableOp where
  | add (name : TableName) (record : name.Record)
  | del (name : TableName) (record : name.Record)

namespace TableOp

def name : TableOp → TableName
  | .add name _ => name
  | .del name _ => name

/-- The items the call appends when it is made against a world. -/
def items (world : World) : TableOp → List TransItemT
  | .add name record => name.table.recordItems (world name (name.table.id record)) record
  | .del name record => name.table.removeItems record

def Accepted (world : World) : TableOp → Prop
  | .add name record => name.table.Acceptable (world name) record
  | .del name record => name.table.Removable (world name) record

/-- The world once the items of the call are written. -/
def apply (world : World) : TableOp → World
  | .add name record => Function.update world name
      (Function.update (world name) (name.table.id record) (some record))
  | .del name record => Function.update world name
      (Function.update (world name) (name.table.id record) none)

/-- The first call changes nothing that the second one reads. -/
def Unaffected (first second : TableOp) : Prop :=
  ∀ world, second.Accepted world →
    second.Accepted (first.apply world) ∧ second.items (first.apply world) = second.items world

/-- What the call read in one world is good enough to write it in another. -/
def Fits (before now : World) : TableOp → Prop
  | .add name record => ∀ keytype ∈ name.table.secondaryKeys,
      name.table.Fits (now name) record keytype (before name (name.table.id record))
  | .del _ _ => True

theorem fits_current (world : World) (op : TableOp) : op.Fits world world := by
  cases op with
  | add name record => exact fun keytype _ => StoreTable.fits_current (world name) record keytype
  | del name record => trivial

/-- Only what is stored in its own table matters. -/
theorem fits_congr {before now now' : World} {op : TableOp} (same : now op.name = now' op.name)
    (fits : op.Fits before now) : op.Fits before now' := by
  cases op with
  | add name record =>
    rw [Fits, show now name = now' name from same] at fits
    exact fits
  | del name record => trivial

theorem apply_of_ne (world : World) (op : TableOp) {other : TableName} (differ : other ≠ op.name) :
    op.apply world other = world other := by
  cases op <;> exact Function.update_of_ne differ ..

theorem items_dataKey {world : World} {op : TableOp} {item : TransItemT} (member : item ∈ op.items world) :
    ∃ keytype ∈ op.name.keyTypes, HasType keytype item.key := by
  cases op with
  | add name record => exact name.table.recordItems_hasType member
  | del name record => exact name.table.removeItems_hasType member

/-- A record lies under its primary key in the items of the call that adds it, and of no other. -/
theorem put_mem_items_iff {world : World} {op : TableOp} {name : TableName} {record : name.Record} {n : ℕ} :
    (⟨encodePrimaryKey name.table.primaryKey n, name.table.serialize record, false⟩ : TransItemT) ∈ op.items world ↔
      op = .add name record ∧ name.table.id record = n := by
  constructor
  · intro member
    obtain ⟨keytype, inOp, hasType⟩ := items_dataKey member
    have same : op.name = name := by
      by_contra differ
      exact TableName.keyTypes_disjoint differ inOp
        (hasType.unique (hasType_encodePrimaryKey name.table.primaryKey n) ▸ List.mem_cons_self ..)
    cases op with
    | add opName added =>
      obtain rfl : opName = name := same
      have item := (StoreTable.mem_recordItems_primary _ (hasType_encodePrimaryKey ..)).mp member
      simp only [TransItemT.mk.injEq, encodePrimaryKey_inj, and_true] at item
      have sameRecord := congrArg opName.table.parse item.2
      simp only [StoreTable.parse_serialize, Option.some.injEq] at sameRecord
      subst sameRecord
      exact ⟨rfl, item.1.symm⟩
    | del opName removed =>
      have deletes : ∀ item ∈ opName.table.removeItems removed, item.toDel = true := by
        simp [StoreTable.removeItems]
      exact (Bool.false_ne_true (deletes _ member)).elim
  · rintro ⟨rfl, rfl⟩
    exact (StoreTable.mem_recordItems_primary _ (hasType_encodePrimaryKey ..)).mpr rfl

/-- Calls on different tables do not meet. -/
theorem unaffected_of_ne {first second : TableOp} (differ : second.name ≠ first.name) :
    Unaffected first second := by
  intro world accepted
  have same := apply_of_ne world first differ
  cases second <;> simp only [name] at same <;>
    exact ⟨by rw [Accepted, same]; exact accepted, by simp only [items, same]⟩

/-- In a table without unique keys, calls on different records do not meet. -/
theorem unaffected_add {name : TableName} (noUnique : name.table.uniqueKeys = [])
    {first second : name.Record} (differ : name.table.id second ≠ name.table.id first) :
    Unaffected (.add name first) (.add name second) := by
  rintro world ⟨positive, found, _⟩
  have same : (TableOp.add name first).apply world name (name.table.id second) =
      world name (name.table.id second) := by
    rw [apply, Function.update_self, Function.update_of_ne differ]
  refine ⟨⟨positive, found, ?_⟩, by simp only [items, same]⟩
  rintro ⟨keytype, member, _⟩
  rw [noUnique] at member
  exact List.not_mem_nil member

/-- In a table without secondary keys, deletions do not meet. -/
theorem unaffected_del {name : TableName} (noKeys : name.table.secondaryKeys = []) (first : TableOp)
    (record : name.Record) : Unaffected first (.del name record) := by
  intro world _
  refine ⟨fun keytype member => ?_, rfl⟩
  rw [noKeys] at member
  exact (List.not_mem_nil member).elim

theorem accepted_del {name : TableName} (noKeys : name.table.secondaryKeys = []) (world : World)
    (record : name.Record) : (TableOp.del name record).Accepted world := by
  intro keytype member
  rw [noKeys] at member
  exact (List.not_mem_nil member).elim

end TableOp

namespace RepresentsAll

variable {db db' : DB} {world : World}

/-- Writes outside the tables do not disturb them. -/
theorem frame (represents : RepresentsAll db world)
    (same : ∀ key, DataKey key → db'.get? key = db.get? key) : RepresentsAll db' world := by
  intro name
  apply (represents name).frame
  intro keytype member key hasType
  exact same key ⟨name, keytype, member, hasType⟩

/-- One call, written on its own, some time after it was made. -/
theorem apply_of_fits (represents : RepresentsAll db world) {op : TableOp} (accepted : op.Accepted world)
    {before : World} (fits : op.Fits before world) :
    RepresentsAll (applyItems db (op.items before)) (op.apply world) := by
  intro other
  by_cases same : other = op.name
  · cases op with
    | add name record =>
      cases same
      have added := (represents name).add_of_fits accepted fits
      change name.table.Represents _ (TableOp.apply world (.add name record) name)
      rwa [TableOp.apply, Function.update_self]
    | del name record =>
      cases same
      have removed := (represents name).remove accepted
      change name.table.Represents _ (TableOp.apply world (.del name record) name)
      rwa [TableOp.apply, Function.update_self]
  · rw [op.apply_of_ne world same]
    apply (represents other).frame
    intro keytype member key hasType
    apply applyItems_of_untouched
    rintro item inItems rfl
    obtain ⟨keytype', member', hasType'⟩ := TableOp.items_dataKey inItems
    exact TableName.keyTypes_disjoint same member (hasType.unique hasType' ▸ member')

/-- One call, written at once. -/
theorem apply (represents : RepresentsAll db world) {op : TableOp} (accepted : op.Accepted world) :
    RepresentsAll (applyItems db (op.items world)) (op.apply world) :=
  represents.apply_of_fits accepted (op.fits_current world)

/-- A transaction of calls that leave each other's reads alone, all made against one world and written to
another one, in which they would append the same items or at least fit. Only the first call on a table may
have to make do with the latter. -/
theorem applyAll_of_fits (represents : RepresentsAll db world) {ops : List TableOp}
    (accepted : ∀ op ∈ ops, op.Accepted world) (separate : ops.Pairwise TableOp.Unaffected) {before : World}
    (fits : ∀ op ∈ ops, op.items before = op.items world ∨ op.Fits before world)
    (alone : ops.Pairwise fun first second => second.name = first.name → second.items before = second.items world) :
    RepresentsAll (applyItems db (ops.flatMap (TableOp.items before))) (ops.foldl TableOp.apply world) := by
  induction ops generalizing db world with
  | nil => exact represents
  | cons op rest ih =>
    obtain ⟨after, separateRest⟩ := List.pairwise_cons.mp separate
    obtain ⟨first, aloneRest⟩ := List.pairwise_cons.mp alone
    have head := accepted op (List.mem_cons_self ..)
    have tail : ∀ other ∈ rest, other.Accepted (op.apply world) ∧
        other.items (op.apply world) = other.items world := fun other member =>
      after other member world (accepted other (List.mem_cons_of_mem _ member))
    have written : RepresentsAll (applyItems db (op.items before)) (op.apply world) := by
      rcases fits op (List.mem_cons_self ..) with same | fits
      · rw [same]
        exact represents.apply_of_fits head (op.fits_current world)
      · exact represents.apply_of_fits head fits
    rw [List.flatMap_cons, applyItems_append, List.foldl_cons]
    refine ih written (fun other member => (tail other member).1) separateRest (fun other member => ?_) ?_
    · by_cases sameName : other.name = op.name
      · exact .inl ((first other member sameName).trans (tail other member).2.symm)
      · rcases fits other (List.mem_cons_of_mem _ member) with same | fits
        · exact .inl (same.trans (tail other member).2.symm)
        · exact .inr (TableOp.fits_congr (op.apply_of_ne world sameName).symm fits)
    · refine aloneRest.imp_of_mem fun _ inSecond same sameName => ?_
      exact (same sameName).trans (tail _ inSecond).2.symm

/-- A transaction of calls that leave each other's reads alone, all made against one world. -/
theorem applyAll (represents : RepresentsAll db world) {ops : List TableOp}
    (accepted : ∀ op ∈ ops, op.Accepted world) (separate : ops.Pairwise TableOp.Unaffected) :
    RepresentsAll (applyItems db (ops.flatMap (TableOp.items world))) (ops.foldl TableOp.apply world) :=
  represents.applyAll_of_fits accepted separate (fun _ _ => .inl rfl) (List.pairwise_of_forall fun _ _ _ => rfl)

end RepresentsAll

/-- A database with no binding under any table's keys but fences stores nothing. -/
theorem representsAll_of_fences {db : DB}
    (fences : ∀ key value, DataKey key → db.get? key = some value →
      value = .data .empty ∧ ∃ name : TableName, key = encodePrimaryKey name.table.primaryKey 0) :
    RepresentsAll db fun _ _ => none := by
  intro name
  have primaryMember : name.table.primaryKey ∈ name.keyTypes := List.mem_cons_self ..
  have onlyFence (key : Bytes) (value : Stored) (hasType : HasType name.table.primaryKey key)
      (has : db.get? key = some value) :
      value = .data .empty ∧ key = encodePrimaryKey name.table.primaryKey 0 := by
    obtain ⟨empty, other, here⟩ := fences key value ⟨name, _, primaryMember, hasType⟩ has
    have sameType := hasType.unique (here ▸ hasType_encodePrimaryKey other.table.primaryKey 0)
    exact ⟨empty, by rw [here, sameType]⟩
  constructor
  case zero => rfl
  case id_eq => exact fun _ _ has => (Option.some_ne_none _ has.symm).elim
  case found => exact fun _ _ has => (Option.some_ne_none _ has.symm).elim
  case primary =>
    intro n positive
    cases has : db.get? (encodePrimaryKey name.table.primaryKey n) with
    | none => rfl
    | some value =>
      have here := (onlyFence _ value (hasType_encodePrimaryKey ..) has).2
      exact (positive (encodePrimaryKey_inj.mp here)).elim
  case fence =>
    cases has : db.get? (encodePrimaryKey name.table.primaryKey 0) with
    | none => exact .inl rfl
    | some value =>
      rw [(onlyFence _ value (hasType_encodePrimaryKey ..) has).1]
      exact .inr rfl
  case primary_only => exact fun key value hasType has => ⟨0, (onlyFence key value hasType has).2⟩
  case index =>
    intro keytype member key hasType value
    constructor
    · intro has
      obtain ⟨_, other, rfl⟩ := fences key value ⟨name, keytype, List.mem_cons_of_mem _ member, hasType⟩ has
      have sameType := hasType.unique (hasType_encodePrimaryKey other.table.primaryKey 0)
      by_cases same : other = name
      · subst same
        exact (StoreTable.secondaryKeys_ne_primaryKey member sameType).elim
      · exact (TableName.keyTypes_disjoint (Ne.symm same) (List.mem_cons_of_mem _ member)
          (sameType ▸ List.mem_cons_self ..)).elim
    · rintro ⟨_, _, has, _⟩
      contradiction

end Identt.Store
