import Identt.Store.Service
import Identt.Store.World

/-! # What a transaction of a service is made of

A service reads the world of one moment and puts accepted records into one transaction. The
transaction's items are those of a list of table operations, and writing them carries the operations
out. What the reads of a service can answer is said here for the world instead of the database.
-/

namespace Identt.Store

/-- What looking a record up by a secondary key answers: the stored record with the probe's key, or the
probe itself. -/
inductive LookedUp {T : Type} (table : StoreTable T) (records : ℕ → Option T) (keytype : KeyTypeE) (probe : T) :
    Bool × T → Prop
  | found (n : ℕ) (record : T) (has : records n = some record)
      (same : table.getKey record keytype false = table.getKey probe keytype false) :
      LookedUp table records keytype probe (true, record)
  | absent (none : ∀ n record, records n = some record →
      table.getKey record keytype false ≠ table.getKey probe keytype false) :
      LookedUp table records keytype probe (false, probe)

namespace StoreTable.Represents

variable {T : Type} {table : StoreTable T} {db : DB} {records : ℕ → Option T}

theorem lookedUp (represents : table.Represents db records) {keytype : KeyTypeE}
    (member : keytype ∈ table.secondaryKeys) {probe : T} {answer : Bool × T}
    (call : table.getOne db probe keytype = .ok answer) : LookedUp table records keytype probe answer := by
  rcases represents.getOne_cases member call with ⟨n, found, has, same⟩ | ⟨rfl, none⟩
  · obtain ⟨flag, record⟩ := answer
    cases found
    exact .found n record has same
  · exact .absent none

/-- A lookup by a secondary key does not throw. -/
theorem getOne_total (represents : table.Represents db records) {keytype : KeyTypeE}
    (member : keytype ∈ table.secondaryKeys) (probe : T) :
    ∃ answer, table.getOne db probe keytype = .ok answer ∧ LookedUp table records keytype probe answer := by
  by_cases holder : ∃ n found, records n = some found ∧
      table.getKey found keytype false = table.getKey probe keytype false
  · obtain ⟨n, found, has, same⟩ := holder
    exact ⟨_, represents.getOne_of_key member has same, .found n found has same⟩
  · have none : ∀ n found, records n = some found →
        table.getKey found keytype false ≠ table.getKey probe keytype false :=
      fun n found has same => holder ⟨n, found, has, same⟩
    exact ⟨_, represents.getOne_of_no_key member none, .absent none⟩

/-- A lookup by the identifier finds the record that is stored under it. -/
theorem getOne_id_iff (represents : table.Represents db records) {probe record : T}
    (positive : table.id probe ≠ 0) :
    table.getOne db probe table.primaryKey = .ok (true, record) ↔ records (table.id probe) = some record := by
  rw [represents.getOne_primary positive]
  cases records (table.id probe) <;> simp

end StoreTable.Represents

section Insert

variable {db : DB} {transaction transaction' : TransactionT}

/-- When a service can add a record to its transaction, and what it adds. -/
theorem insert_eq_ok_iff (name : TableName) (invariant : TableInvariant db) {record : name.Record}
    {upsert : Bool} {refusal : String} :
    name.table.insert db record transaction upsert refusal = .ok transaction' ↔
      (TableOp.add name record).Accepted (worldOf db) ∧
      (worldOf db name (name.table.id record) = none ∨ upsert = true) ∧
      transaction' = transaction.append ((TableOp.add name record).items (worldOf db)) := by
  rw [StoreTable.insert]
  rcases (invariant name).addRecord_eq record transaction upsert with ⟨acceptable, allowed, answer⟩ |
    ⟨refused, answer⟩
  · rw [answer]
    constructor
    · rintro ⟨⟩
      exact ⟨acceptable, allowed, rfl⟩
    · rintro ⟨_, _, rfl⟩
      rfl
  · rw [answer]
    constructor
    · intro passed
      contradiction
    · rintro ⟨acceptable, allowed, _⟩
      exact (refused ⟨acceptable, allowed⟩).elim

/-- A new record takes an identifier that no record has. -/
theorem insert_free (name : TableName) (invariant : TableInvariant db) {record : name.Record} {upsert : Bool}
    {refusal : String} (call : name.table.insert db record transaction upsert refusal = .ok transaction')
    (isNew : upsert = false) : worldOf db name (name.table.id record) = none := by
  rcases ((insert_eq_ok_iff name invariant).mp call).2.1 with free | isUpdate
  · exact free
  · rw [isNew] at isUpdate
    contradiction

/-- A stored record can be replaced by one that has its identifier and its unique keys. -/
theorem acceptable_update {T : Type} {table : StoreTable T} {records : ℕ → Option T}
    (represents : table.Represents db records) {n : ℕ} {old record : T} (has : records n = some old)
    (sameId : table.id record = n) (found : table.notfound record = false)
    (sameKeys : ∀ keytype ∈ table.uniqueKeys, table.getKey record keytype false = table.getKey old keytype false) :
    table.Acceptable records record := by
  refine ⟨?_, found, ?_⟩
  · rw [sameId]
    exact represents.ne_zero has
  · rintro ⟨keytype, member, m, other, hasOther, differ, same⟩
    rw [sameKeys keytype member] at same
    rw [sameId] at differ
    exact differ (represents.unique (StoreTable.mem_secondaryKeys.mpr (.inl member)) hasOther has same)

/-- A new record can be stored if nobody has its unique keys. -/
theorem acceptable_new {T : Type} {table : StoreTable T} {records : ℕ → Option T} {record : T}
    (positive : table.id record ≠ 0) (found : table.notfound record = false)
    (absent : ∀ keytype ∈ table.uniqueKeys, ∀ n other, records n = some other →
      table.getKey other keytype false ≠ table.getKey record keytype false) :
    table.Acceptable records record := by
  refine ⟨positive, found, ?_⟩
  rintro ⟨keytype, member, n, other, has, _, same⟩
  exact absent keytype member n other has same

end Insert

/-- The transaction holds the items of calls that were all made against the database and leave each
other's reads alone. -/
structure Built (db : DB) (transaction : TransactionT) (ops : List TableOp) : Prop where
  items : transaction.item = ops.flatMap (TableOp.items (worldOf db))
  accepted : ∀ op ∈ ops, op.Accepted (worldOf db)
  separate : ops.Pairwise TableOp.Unaffected

namespace Built

variable {db : DB} {transaction transaction' : TransactionT} {ops : List TableOp}

theorem start (db : DB) : Built db {} [] := ⟨rfl, fun _ member => (List.not_mem_nil member).elim, .nil⟩

/-- One more accepted call. -/
theorem concat (built : Built db transaction ops) {op : TableOp} (accepted : op.Accepted (worldOf db))
    (other : ∀ earlier ∈ ops, earlier.Unaffected op) :
    Built db (transaction.append (op.items (worldOf db))) (ops ++ [op]) := by
  refine ⟨?_, ?_, ?_⟩
  · rw [TransactionT.append_item, built.items, List.flatMap_append, List.flatMap_singleton]
  · intro member inOps
    rcases List.mem_append.mp inOps with earlier | last
    · exact built.accepted member earlier
    · rw [List.mem_singleton.mp last]
      exact accepted
  · refine List.pairwise_append.mpr ⟨built.separate, List.pairwise_singleton _ _, ?_⟩
    intro earlier inOps last isLast
    rw [List.mem_singleton.mp isLast]
    exact other earlier inOps

/-- A record of a table that the transaction has not touched. -/
theorem insert (built : Built db transaction ops) (name : TableName) (invariant : TableInvariant db)
    {record : name.Record} {upsert : Bool} {refusal : String}
    (call : name.table.insert db record transaction upsert refusal = .ok transaction')
    (untouched : name ∉ ops.map TableOp.name) : Built db transaction' (ops ++ [.add name record]) := by
  obtain ⟨accepted, _, rfl⟩ := (insert_eq_ok_iff name invariant).mp call
  refine built.concat accepted fun earlier member => TableOp.unaffected_of_ne ?_
  rintro same
  exact untouched (List.mem_map.mpr ⟨earlier, member, same.symm⟩)

/-- A transaction that adds a record is not empty. -/
theorem item_ne_nil (built : Built db transaction ops) {name : TableName} {record : name.Record}
    (member : .add name record ∈ ops) : transaction.item ≠ [] := by
  rw [built.items]
  exact List.ne_nil_of_mem (List.mem_flatMap.mpr ⟨_, member, TableOp.put_mem_items_iff.mpr ⟨rfl, rfl⟩⟩)

/-- Writing the transaction to the database it was built against carries the calls out. -/
theorem applied (built : Built db transaction ops) (invariant : TableInvariant db) :
    RepresentsAll (applyItems db transaction.item) (ops.foldl TableOp.apply (worldOf db)) := by
  rw [built.items]
  exact RepresentsAll.applyAll invariant built.accepted built.separate

end Built

/-- Calls on other tables leave a table alone. -/
theorem foldl_apply_of_notMem {ops : List TableOp} {name : TableName} (untouched : name ∉ ops.map TableOp.name)
    (world : World) : ops.foldl TableOp.apply world name = world name := by
  induction ops generalizing world with
  | nil => rfl
  | cons op rest ih =>
    simp only [List.map_cons, List.mem_cons, not_or] at untouched
    rw [List.foldl_cons, ih untouched.2, TableOp.apply_of_ne world op untouched.1]

/-- The identifier of the record that the call is about. -/
def TableOp.recordId : TableOp → ℕ
  | .add name record => name.table.id record
  | .del name record => name.table.id record

/-- Calls on other records of a table leave a record alone. -/
theorem foldl_apply_of_other {ops : List TableOp} {name : TableName} {n : ℕ}
    (other : ∀ op ∈ ops, op.name = name → op.recordId ≠ n) (world : World) :
    ops.foldl TableOp.apply world name n = world name n := by
  induction ops generalizing world with
  | nil => rfl
  | cons op rest ih =>
    rw [List.foldl_cons, ih fun later member => other later (List.mem_cons_of_mem _ member)]
    by_cases same : op.name = name
    · have differ := other op (List.mem_cons_self ..) same
      cases op <;> cases same <;> exact congrFun (Function.update_self ..) n |>.trans (Function.update_of_ne differ.symm ..)
    · rw [TableOp.apply_of_ne world op (Ne.symm same)]

@[simp] theorem apply_add_self (world : World) (name : TableName) (record : name.Record) :
    (TableOp.add name record).apply world name =
      Function.update (world name) (name.table.id record) (some record) := Function.update_self ..

@[simp] theorem apply_del_self (world : World) (name : TableName) (record : name.Record) :
    (TableOp.del name record).apply world name =
      Function.update (world name) (name.table.id record) none := Function.update_self ..

/-- A record that is stored after a call was stored before, or is the one that the call adds. -/
theorem TableOp.apply_cases {world : World} {op : TableOp} {name : TableName} {n : ℕ} {record : name.Record}
    (has : op.apply world name n = some record) :
    world name n = some record ∨ op = .add name record ∧ name.table.id record = n := by
  rcases eq_or_ne name op.name with same | differ
  · cases op with
    | add opName added =>
      obtain rfl : name = opName := same
      rw [apply_add_self, Function.update_apply] at has
      split at has
      · next here =>
        obtain rfl := Option.some.inj has
        exact .inr ⟨rfl, here.symm⟩
      · exact .inl has
    | del opName removed =>
      obtain rfl : name = opName := same
      rw [apply_del_self, Function.update_apply] at has
      split at has
      · contradiction
      · exact .inl has
  · rw [TableOp.apply_of_ne world op differ] at has
    exact .inl has

/-- So it is for several calls. -/
theorem foldl_apply_cases {ops : List TableOp} {world : World} {name : TableName} {n : ℕ} {record : name.Record}
    (has : ops.foldl TableOp.apply world name n = some record) :
    world name n = some record ∨ .add name record ∈ ops ∧ name.table.id record = n := by
  induction ops generalizing world with
  | nil => exact .inl has
  | cons op rest ih =>
    rcases ih has with earlier | ⟨member, number⟩
    · rcases TableOp.apply_cases earlier with old | ⟨rfl, number⟩
      · exact .inl old
      · exact .inr ⟨List.mem_cons_self .., number⟩
    · exact .inr ⟨List.mem_cons_of_mem _ member, number⟩

/-- Every stored record has an identifier that the counter has passed. -/
def Numbered (world : World) (counter : ℕ) : Prop :=
  ∀ (name : TableName) (n : ℕ) (record : name.Record), world name n = some record → n ≤ counter

theorem Numbered.mono {world : World} {counter counter' : ℕ} (numbered : Numbered world counter)
    (grows : counter ≤ counter') : Numbered world counter' :=
  fun name n record has => (numbered name n record has).trans grows

/-- An identifier beyond the counter is free. -/
theorem Numbered.free {world : World} {counter : ℕ} (numbered : Numbered world counter) (name : TableName)
    {n : ℕ} (beyond : counter < n) : world name n = none := by
  cases has : world name n with
  | none => rfl
  | some record =>
    have passed := numbered name n record has
    omega

/-- An operation stores no record with an identifier beyond the counter. -/
def TableOp.Passed (counter : ℕ) : TableOp → Prop
  | .add name record => name.table.id record ≤ counter
  | .del _ _ => True

theorem TableOp.Passed.mono {op : TableOp} {counter counter' : ℕ} (passed : op.Passed counter) (grows : counter ≤ counter') :
    op.Passed counter' := by
  cases op with
  | add name record => exact passed.trans grows
  | del name record => trivial

theorem Numbered.applyAll {world : World} {counter : ℕ} (numbered : Numbered world counter)
    {ops : List TableOp} (passed : ∀ op ∈ ops, op.Passed counter) :
    Numbered (ops.foldl TableOp.apply world) counter := by
  intro name n record has
  rcases foldl_apply_cases has with old | ⟨added, rfl⟩
  · exact numbered name n record old
  · exact passed _ added

end Identt.Store
