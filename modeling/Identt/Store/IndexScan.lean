import Identt.Store.TableRuns

/-! # Reading a non-unique index (`GetMany`)

`GetMany` visits the index entries whose keys begin with the reference's joined fields. It answers with
the records that have the reference's fields as long as no other record's entry begins that way.
-/

namespace Identt.Store

namespace StoreTable

variable {T : Type} {table : StoreTable T} {db : DB} {records : ℕ → Option T}

/-- The identifier in an index entry. -/
def entryId (entry : Bytes × Stored) : ℕ := ((NodeT.parse entry.2).getD default).id

/-- The loop over the iterator skips and takes. -/
theorem collectNodes_eq {skip limit counter : ℕ} (positive : 0 < limit) (below : counter < skip + limit)
    (entries : List (Bytes × Stored)) : collectNodes skip limit counter entries =
      ((entries.drop (skip - counter)).take (skip + limit - max counter skip)).map
        fun entry => (NodeT.parse entry.2).getD default := by
  induction entries generalizing counter with
  | nil => simp [collectNodes]
  | cons entry rest ih =>
    obtain ⟨key, value⟩ := entry
    rw [collectNodes]
    rcases Nat.lt_or_ge counter skip with skipped | taken
    · rw [if_pos (by omega), ih (by omega), show skip - counter = (skip - (counter + 1)) + 1 by omega,
        List.drop_succ_cons, max_eq_right (by omega), max_eq_right (by omega)]
    · rw [if_neg (by omega), show skip - counter = 0 by omega, List.drop_zero, max_eq_left taken]
      split
      · next last => rw [show skip + limit - counter = 0 + 1 by omega]; rfl
      · next more =>
        rw [ih (by omega), show skip - (counter + 1) = 0 by omega, List.drop_zero, max_eq_left (by omega),
          show skip + limit - counter = (skip + limit - (counter + 1)) + 1 by omega, List.take_succ_cons,
          List.map_cons]

/-- The loop over the nodes reads the stored record of every node. -/
theorem fetchMany_eq (represents : table.Represents db records) {nodes : List NodeT}
    (typed : ∀ node ∈ nodes, node.keytype = table.primaryKey ∧ (records node.id).isSome) (scratch : T)
    (found : OrderedMap ℕ T) : ∃ map, table.fetchMany db scratch found nodes = .ok map ∧
      ∀ n, map.get? n = if n ∈ nodes.map NodeT.id then records n else found.get? n := by
  induction nodes generalizing scratch found with
  | nil => exact ⟨found, rfl, fun n => by simp⟩
  | cons node rest ih =>
    obtain ⟨keytype, present⟩ := typed node (List.mem_cons_self ..)
    obtain ⟨record, has⟩ := Option.isSome_iff_exists.mp present
    have id := represents.id_eq node.id record has
    have read : db.get? (table.getKey (table.setId scratch node.id) table.primaryKey false) =
        some (.data (table.serialize record)) := by
      rw [table.getKey_primary, id_setId, represents.primary _ (represents.ne_zero has), has, Option.map_some]
    obtain ⟨map, result, lookup⟩ := ih (fun other member => typed other (List.mem_cons_of_mem _ member))
      record (found.put (table.id record) record)
    refine ⟨map, ?_, fun n => ?_⟩
    · rw [fetchMany, if_neg (not_not.mpr keytype), read]
      simp only [parseStored_serialize]
      exact result
    · rw [lookup n]
      by_cases later : n ∈ rest.map NodeT.id
      · simp [later]
      · rw [if_neg later, OrderedMap.get?_put, id]
        by_cases here : n = node.id
        · simp [here, has]
        · have other : n ∉ (node :: rest).map NodeT.id := by
            rw [List.map_cons, List.mem_cons, not_or]
            exact ⟨here, later⟩
          rw [if_neg here, if_neg other]

/-- The records that the loop reads are the same whatever the map holds already. -/
theorem fetchMany_onto {nodes : List NodeT} {scratch : T} {before before' map : OrderedMap ℕ T}
    (fetched : table.fetchMany db scratch before nodes = .ok map) (records : OrderedMap ℕ T)
    (onto : ∀ n, before'.get? n = (before.get? n).or (records.get? n)) :
    ∃ map', table.fetchMany db scratch before' nodes = .ok map' ∧ ∀ n, map'.get? n = (map.get? n).or (records.get? n) := by
  induction nodes generalizing scratch before before' with
  | nil =>
    cases fetched
    exact ⟨before', rfl, onto⟩
  | cons node rest ih =>
    rw [fetchMany] at fetched ⊢
    split at fetched
    · contradiction
    · next primary =>
      rw [if_neg primary]
      split at fetched
      · contradiction
      · split at fetched
        · contradiction
        · refine ih fetched fun n => ?_
          rw [OrderedMap.get?_put, OrderedMap.get?_put]
          split
          · rfl
          · exact onto n

/-- A call of `GetMany` adds to a map what it makes of an empty one. -/
theorem getMany_onto [Inhabited T] {refer : T} {found : Bool} {map : OrderedMap ℕ T} {keytype : KeyTypeE} {skip limit : ℕ}
    (call : table.getMany db refer .empty keytype skip limit = .ok (found, map)) (records : OrderedMap ℕ T) :
    ∃ map', table.getMany db refer records keytype skip limit = .ok (found, map') ∧
      ∀ n, map'.get? n = (map.get? n).or (records.get? n) := by
  rw [getMany] at call ⊢
  split at call
  · contradiction
  · next notPrimary =>
    rw [if_neg notPrimary]
    split at call
    · cases call
      exact ⟨records, rfl, fun n => rfl⟩
    · cases fetched : table.fetchMany db default .empty (table.getKeysFromIndex db keytype refer skip limit) with
      | error e =>
        rw [fetched] at call
        contradiction
      | ok fresh =>
        rw [fetched] at call
        cases call
        obtain ⟨map', result, lookup⟩ := fetchMany_onto fetched records fun n => rfl
        exact ⟨map', by rw [result]; rfl, lookup⟩

/-- A call of `GetMany` that finds no entry leaves the map as it is. -/
theorem getMany_not_found [Inhabited T] {refer : T} {before map : OrderedMap ℕ T} {keytype : KeyTypeE} {skip limit : ℕ}
    (call : table.getMany db refer before keytype skip limit = .ok (false, map)) : map = before := by
  rw [getMany] at call
  split at call
  · contradiction
  · split at call
    · cases call
      rfl
    · cases fetched : table.fetchMany db default before (table.getKeysFromIndex db keytype refer skip limit) with
      | error e =>
        rw [fetched] at call
        contradiction
      | ok records => simp [fetched, Except.map] at call

namespace Represents

/-- The entries of an index that a reference's key begins are those of the stored records whose own
keys it begins, each once. -/
theorem scan_ids (represents : table.Represents db records) {keytype : KeyTypeE}
    (member : keytype ∈ table.secondaryKeys) (refer : T) :
    ((db.scan (table.getKey refer keytype true)).map entryId).Nodup ∧
    (∀ n, n ∈ (db.scan (table.getKey refer keytype true)).map entryId ↔
      ∃ record, records n = some record ∧ table.getKey refer keytype true <+: table.getKey record keytype false) ∧
    ∀ entry ∈ db.scan (table.getKey refer keytype true), (NodeT.parse entry.2).getD default =
      ⟨table.primaryKey, entryId entry⟩ := by
  have holder : ∀ entry ∈ db.scan (table.getKey refer keytype true), ∃ record,
      records (entryId entry) = some record ∧ table.getKey record keytype false = entry.1 ∧
        entry.2 = table.nodeValue (entryId entry) := by
    rintro ⟨key, value⟩ inScan
    obtain ⟨has, begins⟩ := OrderedMap.mem_scan.mp inScan
    have ofType : HasType keytype key := (hasType_getKey member refer true).trans begins
    obtain ⟨n, record, hasRecord, same, rfl⟩ := (represents.index keytype member key ofType value).mp has
    exact ⟨record, hasRecord, same, rfl⟩
  refine ⟨?_, fun n => ⟨?_, ?_⟩, ?_⟩
  · refine List.Nodup.map_on ?_ ((db.scan_sorted _).imp fun less same => less.ne (congrArg Prod.fst same))
    intro left inLeft right inRight sameId
    obtain ⟨record, has, key, value⟩ := holder left inLeft
    obtain ⟨record', has', key', value'⟩ := holder right inRight
    rw [sameId, has'] at has
    cases has
    exact Prod.ext (key.symm.trans key') (by rw [value, value', sameId])
  · intro inIds
    obtain ⟨entry, inScan, rfl⟩ := List.mem_map.mp inIds
    obtain ⟨record, has, same, _⟩ := holder entry inScan
    exact ⟨record, has, by rw [same]; exact (OrderedMap.mem_scan.mp inScan).2⟩
  · rintro ⟨record, has, begins⟩
    have entry := (represents.index keytype member _ (hasType_getKey member record false) _).mpr
      ⟨n, record, has, rfl, rfl⟩
    exact List.mem_map.mpr ⟨(_, table.nodeValue n), OrderedMap.mem_scan.mpr ⟨entry, begins⟩, rfl⟩
  · intro entry inScan
    obtain ⟨_, _, _, value⟩ := holder entry inScan
    rw [value]
    rfl

/-- The entries come in the order of the keys of their records. -/
theorem scan_ordered (represents : table.Represents db records) {keytype : KeyTypeE}
    (member : keytype ∈ table.secondaryKeys) (refer : T) :
    ((db.scan (table.getKey refer keytype true)).map entryId).Pairwise fun m n =>
      ∀ left right, records m = some left → records n = some right →
        table.getKey left keytype false < table.getKey right keytype false := by
  have keyOf {entry : Bytes × Stored} (inScan : entry ∈ db.scan (table.getKey refer keytype true)) {record : T}
      (has : records (entryId entry) = some record) : table.getKey record keytype false = entry.1 := by
    obtain ⟨bound, begins⟩ := OrderedMap.mem_scan.mp inScan
    have ofType : HasType keytype entry.1 := (hasType_getKey member refer true).trans begins
    obtain ⟨n, holder, hasHolder, same, value⟩ := (represents.index keytype member entry.1 ofType entry.2).mp bound
    have number : entryId entry = n := by rw [entryId, value]; rfl
    rw [number] at has
    rw [← same, Option.some.inj (has.symm.trans hasHolder)]
  refine List.pairwise_map.mpr ((db.scan_sorted _).imp_of_mem ?_)
  intro first second inFirst inSecond less left right hasLeft hasRight
  rw [keyOf inFirst hasLeft, keyOf inSecond hasRight]
  exact less

/-- What a call of `GetMany` answers. -/
theorem getMany_eq [Inhabited T] (represents : table.Represents db records) {keytype : KeyTypeE}
    (member : keytype ∈ table.secondaryKeys) (refer : T) {skip limit : ℕ} (positive : 0 < limit) :
    ∃ found map, table.getMany db refer .empty keytype skip limit = .ok (found, map) ∧
      ∀ n, map.get? n =
        if (table.getKey refer keytype true).length ≤ keyIdLen then none
        else if n ∈ ((((db.scan (table.getKey refer keytype true)).map entryId).drop skip).take limit)
          then records n else none := by
  have notPrimary := secondaryKeys_ne_primaryKey member
  rw [getMany, if_neg notPrimary, getKeysFromIndex, if_pos (mem_secondaryKeys.mp member)]
  by_cases short : (table.getKey refer keytype true).length ≤ keyIdLen
  · refine ⟨false, .empty, by simp only [if_pos short], fun n => ?_⟩
    rw [if_pos short, OrderedMap.get?_empty]
  · obtain ⟨_, ids, nodes⟩ := represents.scan_ids member refer
    simp only [if_neg short]
    rw [collectNodes_eq positive (by omega), Nat.sub_zero, Nat.zero_max, Nat.add_sub_cancel_left]
    generalize window : ((db.scan (table.getKey refer keytype true)).drop skip).take limit = entries
    have inScan : ∀ entry ∈ entries, entry ∈ db.scan (table.getKey refer keytype true) := by
      intro entry inWindow
      rw [← window] at inWindow
      exact List.mem_of_mem_drop (List.mem_of_mem_take inWindow)
    have listed : (((db.scan (table.getKey refer keytype true)).map entryId).drop skip).take limit =
        (entries.map fun entry => (NodeT.parse entry.2).getD default).map NodeT.id := by
      rw [← List.map_drop, ← List.map_take, window, List.map_map]
      rfl
    have typed : ∀ node ∈ entries.map fun entry => (NodeT.parse entry.2).getD default,
        node.keytype = table.primaryKey ∧ (records node.id).isSome := by
      intro node inNodes
      obtain ⟨entry, inWindow, rfl⟩ := List.mem_map.mp inNodes
      rw [nodes entry (inScan entry inWindow)]
      obtain ⟨record, has, _⟩ := (ids (entryId entry)).mp (List.mem_map_of_mem (inScan entry inWindow))
      exact ⟨rfl, by rw [has]; rfl⟩
    rw [listed]
    cases collected : entries.map fun entry => (NodeT.parse entry.2).getD default with
    | nil => exact ⟨false, .empty, rfl, fun n => by simp⟩
    | cons node rest =>
      rw [collected] at typed
      obtain ⟨map, result, lookup⟩ := fetchMany_eq represents typed default .empty
      refine ⟨true, map, by simp only [result]; rfl, fun n => ?_⟩
      rw [lookup n, OrderedMap.get?_empty]

end Represents

end StoreTable

/-- The non-unique indexes of the repository. -/
inductive NonUniqueIndex where
  | globalAssocMediumAddress | inviteTokenMediumAddress | inviteTokenToken
deriving DecidableEq, Repr

namespace NonUniqueIndex

@[reducible] def name : NonUniqueIndex → TableName
  | .globalAssocMediumAddress => .globalAssoc
  | .inviteTokenMediumAddress | .inviteTokenToken => .inviteToken

def keytype : NonUniqueIndex → KeyTypeE
  | .globalAssocMediumAddress => .iGlobalAssocMediumAddress
  | .inviteTokenMediumAddress => .iInviteTokenMediumAddress
  | .inviteTokenToken => .iInviteTokenToken

/-- The fields of a record that the index is about. -/
def fields : (index : NonUniqueIndex) → index.name.Record → List Bytes
  | .globalAssocMediumAddress => fun record : GlobalAssocT => [record.medium, record.address]
  | .inviteTokenMediumAddress => fun record : InviteTokenT => [record.medium, record.address]
  | .inviteTokenToken => fun record : InviteTokenT => [record.token]

/-- The joined fields that a lookup searches for. -/
def referText (index : NonUniqueIndex) (refer : index.name.Record) : Bytes :=
  joinParts ((index.fields refer).map .strn)

/-- The joined fields and identifier under which a record is indexed. -/
def indexText (index : NonUniqueIndex) (record : index.name.Record) : Bytes :=
  joinParts ((index.fields record).map .strn ++ [.uint (index.name.table.id record)])

theorem keytype_mem (index : NonUniqueIndex) : index.keytype ∈ index.name.table.secondaryKeys := by
  cases index <;> decide

theorem getKey_refer (index : NonUniqueIndex) (refer : index.name.Record) :
    index.name.table.getKey refer index.keytype true = encodeKeyType index.keytype ++ index.referText refer := by
  cases index <;> rfl

theorem getKey_index (index : NonUniqueIndex) (record : index.name.Record) :
    index.name.table.getKey record index.keytype false = encodeKeyType index.keytype ++ index.indexText record := by
  cases index <;> rfl

/-- A reference's joined fields begin the text of every record with the same fields. -/
theorem referText_prefix {index : NonUniqueIndex} {refer record : index.name.Record}
    (same : index.fields record = index.fields refer) : index.referText refer <+: index.indexText record := by
  rw [indexText, same, joinParts_concat, referText]
  · exact List.prefix_append ..
  · cases index <;> exact List.cons_ne_nil _ _

/-- Two joined fields are never empty. -/
theorem joinParts_pair_ne_nil (first second : KeyPart) : joinParts [first, second] ≠ [] := by
  simp [joinParts]

variable (index : NonUniqueIndex) (db : DB) (refer : index.name.Record)

/-- `GetMany` answers with stored records that have the reference's fields, and from the first one on
with all of them, if the limit is not below their number. -/
def GetsExactly : Prop :=
  ∀ skip limit, 0 < limit → ∃ found map,
    index.name.table.getMany db refer .empty index.keytype skip limit = .ok (found, map) ∧
    (∀ n record, map.get? n = some record →
      index.name.table.records db n = some record ∧ index.fields record = index.fields refer) ∧
    (skip = 0 → (∀ ids : List ℕ, ids.Nodup → (∀ n ∈ ids, ∃ record,
        index.name.table.records db n = some record ∧ index.fields record = index.fields refer) →
      ids.length ≤ limit) →
      ∀ n record, index.name.table.records db n = some record → index.fields record = index.fields refer →
        map.get? n = some record)

/-- No record with other fields is indexed under a text that begins with the reference's joined fields;
and where these are empty, no record has the reference's fields. -/
def Separated : Prop :=
  if index.referText refer = [] then
    ∀ n record, index.name.table.records db n = some record → index.fields record ≠ index.fields refer
  else
    ∀ n record, index.name.table.records db n = some record →
      index.referText refer <+: index.indexText record → index.fields record = index.fields refer

variable {index db}

/-- `GetMany` answers with the records that its window covers in the list of all records that are indexed
under a text which begins with the reference's joined fields, in the order of these texts. -/
theorem getMany_window (invariant : TableInvariant db) (refer : index.name.Record) :
    ∃ scan : List ℕ, scan.Nodup ∧
      (∀ n, n ∈ scan ↔ ∃ record, index.name.table.records db n = some record ∧
        index.referText refer <+: index.indexText record) ∧
      (scan.Pairwise fun m n => ∀ left right, index.name.table.records db m = some left →
        index.name.table.records db n = some right → index.indexText left < index.indexText right) ∧
      ∀ skip limit, 0 < limit → ∃ found map,
        index.name.table.getMany db refer .empty index.keytype skip limit = .ok (found, map) ∧
        ∀ n, map.get? n = if index.referText refer = [] then none
          else if n ∈ (scan.drop skip).take limit then index.name.table.records db n else none := by
  have represents := invariant index.name
  obtain ⟨nodup, ids, _⟩ := represents.scan_ids index.keytype_mem refer
  have ordered := represents.scan_ordered index.keytype_mem refer
  have shortKey : (index.name.table.getKey refer index.keytype true).length ≤ keyIdLen ↔
      index.referText refer = [] := by
    rw [getKey_refer, List.length_append, encodeKeyType_length, ← List.length_eq_zero_iff]
    simp only [keyIdLen]
    omega
  refine ⟨_, nodup, fun n => ?_, ordered.imp fun less left right hasLeft hasRight => ?_,
    fun skip limit positive => ?_⟩
  · rw [ids n]
    simp only [getKey_refer, getKey_index, List.prefix_append_right_inj]
    rfl
  · have lessKey := less left right hasLeft hasRight
    rwa [getKey_index, getKey_index, append_lt_append_iff] at lessKey
  · obtain ⟨found, map, result, lookup⟩ := represents.getMany_eq index.keytype_mem refer positive
    refine ⟨found, map, result, fun n => ?_⟩
    rw [lookup n]
    simp only [shortKey]
    rfl

/-- With a limit of one, `GetMany` answers with the first record that is indexed under a text which begins with the
reference's joined fields. -/
theorem getMany_first (invariant : TableInvariant db) {refer : index.name.Record} (nonempty : index.referText refer ≠ []) :
    (∃ found, index.name.table.getMany db refer .empty index.keytype 0 1 = .ok (found, .empty) ∧
      ∀ n record, index.name.table.records db n = some record → ¬ index.referText refer <+: index.indexText record) ∨
    ∃ n record, index.name.table.records db n = some record ∧ index.referText refer <+: index.indexText record ∧
      (∀ m other, index.name.table.records db m = some other → index.referText refer <+: index.indexText other →
        index.indexText record ≤ index.indexText other) ∧
      index.name.table.getMany db refer .empty index.keytype 0 1 = .ok (true, OrderedMap.empty.put n record) := by
  obtain ⟨scan, _, inScan, ordered, answer⟩ := getMany_window invariant refer
  obtain ⟨found, map, call, lookup⟩ := answer 0 1 Nat.one_pos
  have read (n : ℕ) : map.get? n = if n ∈ scan.take 1 then index.name.table.records db n else none := by
    rw [lookup n, if_neg nonempty, List.drop_zero]
  cases scan with
  | nil =>
    left
    have isEmpty : map = .empty := by
      apply OrderedMap.ext_get?
      intro n
      rw [read n]
      rfl
    rw [isEmpty] at call
    exact ⟨found, call, fun n record has begins => List.not_mem_nil ((inScan n).mpr ⟨record, has, begins⟩)⟩
  | cons first rest =>
    right
    obtain ⟨record, has, begins⟩ := (inScan first).mp (List.mem_cons_self ..)
    have onlyFirst : map = OrderedMap.empty.put first record := by
      apply OrderedMap.ext_get?
      intro n
      rw [read n, OrderedMap.get?_put, List.take_succ_cons, List.take_zero, OrderedMap.get?_empty]
      by_cases here : n = first
      · rw [here, if_pos (List.mem_singleton_self _), if_pos rfl, has]
      · rw [if_neg (List.mem_singleton.not.mpr here), if_neg here]
    have isFound : found = true := by
      cases found with
      | true => rfl
      | false =>
        have bound : map.get? first = some record := by rw [onlyFirst, OrderedMap.get?_put, if_pos rfl]
        rw [StoreTable.getMany_not_found call, OrderedMap.get?_empty] at bound
        contradiction
    rw [isFound, onlyFirst] at call
    refine ⟨first, record, has, begins, fun m other hasOther beginsOther => ?_, call⟩
    rcases List.mem_cons.mp ((inScan m).mpr ⟨other, hasOther, beginsOther⟩) with rfl | later
    · rw [Option.some.inj (has.symm.trans hasOther)]
    · exact le_of_lt ((List.pairwise_cons.mp ordered).1 m later record other has hasOther)

variable {refer}

/-- `GetMany` is exact on the references that no other record's index text begins with. -/
theorem getsExactly_iff (invariant : TableInvariant db) : index.GetsExactly db refer ↔ index.Separated db refer := by
  obtain ⟨scan, nodup, inScan, _, answer⟩ := getMany_window invariant refer
  -- every record with the reference's fields is scanned, so their number is at most the scan's length
  have few (ids : List ℕ) (distinct : ids.Nodup) (same : ∀ n ∈ ids, ∃ record,
      index.name.table.records db n = some record ∧ index.fields record = index.fields refer) :
      ids.length ≤ scan.length := by
    refine (distinct.subperm fun n member => ?_).length_le
    obtain ⟨record, has, sameFields⟩ := same n member
    exact (inScan n).mpr ⟨record, has, referText_prefix sameFields⟩
  rw [Separated]
  constructor
  · intro gets
    obtain ⟨found, map, result, sound, complete⟩ := gets 0 (scan.length + 1) (by omega)
    obtain ⟨found', map', result', lookup⟩ := answer 0 (scan.length + 1) (by omega)
    rw [result'] at result
    cases result
    split
    · next empty =>
      intro n record has same
      have all := complete rfl (fun ids distinct sameFields => (few ids distinct sameFields).trans (by omega))
        n record has same
      rw [lookup n, if_pos empty] at all
      contradiction
    · next nonempty =>
      intro n record has begins
      have scannedRecord : n ∈ scan := (inScan n).mpr ⟨record, has, begins⟩
      have returned : map.get? n = some record := by
        rw [lookup n, if_neg nonempty, List.drop_zero, List.take_of_length_le (by omega), if_pos scannedRecord, has]
      exact (sound n record returned).2
  · intro separated skip limit positive
    obtain ⟨found, map, result, lookup⟩ := answer skip limit positive
    refine ⟨found, map, result, ?_, ?_⟩
    · intro n record returned
      rw [lookup n] at returned
      split at returned
      · contradiction
      next nonempty =>
      rw [if_neg nonempty] at separated
      split at returned
      · next inWindow =>
        obtain ⟨other, has, begins⟩ := (inScan n).mp (List.mem_of_mem_drop (List.mem_of_mem_take inWindow))
        rw [has] at returned
        cases returned
        exact ⟨has, separated n _ has begins⟩
      · contradiction
    · rintro rfl enough n record has same
      by_cases empty : index.referText refer = []
      · rw [if_pos empty] at separated
        exact (separated n record has same).elim
      · rw [if_neg empty] at separated
        have length : scan.length ≤ limit := enough scan nodup fun m member => by
          obtain ⟨other, hasOther, begins⟩ := (inScan m).mp member
          exact ⟨other, hasOther, separated m other hasOther begins⟩
        have scannedRecord : n ∈ scan := (inScan n).mpr ⟨record, has, referText_prefix same⟩
        rw [lookup n, if_neg empty, List.drop_zero, List.take_of_length_le length, if_pos scannedRecord, has]

/-- A binding of a longer address. -/
def longerAddress : GlobalAssocT :=
  { id := 2, medium := ascii "email", address := ascii "alice@x.com.au", mxid := ascii "@a:x",
    originServer := ascii "x", originId := 2 }

def longerAddressDb : DB :=
  (tableStep { maindb := StoreLevel.putFences .empty } (.addRecord .globalAssoc longerAddress false true)).maindb

theorem tableInvariant_longerAddress : TableInvariant longerAddressDb :=
  tableInvariant_step tableInvariant_putFences _

/-- Whoever looks up the shorter address is given the binding of the longer one. -/
def shorterAddress : GlobalAssocT := { medium := ascii "email", address := ascii "alice@x.com" }

theorem shorterAddress_not_exact : TableInvariant longerAddressDb ∧
    ¬ NonUniqueIndex.globalAssocMediumAddress.GetsExactly longerAddressDb shorterAddress := by
  refine ⟨tableInvariant_longerAddress, fun gets => ?_⟩
  obtain ⟨found, map, result, sound, _⟩ := gets 0 1 (by omega)
  have answered : (globalAssocTable.getMany longerAddressDb shorterAddress .empty .iGlobalAssocMediumAddress 0
      1).toOption.map (fun answer => answer.2.get? 2) = some (some longerAddress) := by decide +kernel
  have returned : map.get? 2 = some longerAddress := by
    have unfolded : globalAssocTable.getMany longerAddressDb shorterAddress .empty .iGlobalAssocMediumAddress 0
        1 = .ok (found, map) := result
    rw [unfolded] at answered
    exact Option.some.inj answered
  have same := (sound 2 longerAddress returned).2
  revert same
  decide

theorem getsExactly_iff_shorterAddress :
    NonUniqueIndex.globalAssocMediumAddress.GetsExactly longerAddressDb shorterAddress ↔
      NonUniqueIndex.globalAssocMediumAddress.Separated longerAddressDb shorterAddress :=
  getsExactly_iff tableInvariant_longerAddress

end NonUniqueIndex

end Identt.Store
