import Identt.Lib.Projection
import Identt.Store.LastId
import Identt.Store.LogView
import Identt.Store.World

/-! # How the cache follows a transaction

The cache looks at every item whose key is as long as a primary key. A key of another kind that
happens to have this length may fail to decode, and then the items behind it are not followed. Up to
there, each local association that is put is cached, and each deletion, whose item carries no value,
takes the entry of the empty address out.
-/

namespace Identt.Store

/-- The items that put an association are those of a call that adds it. -/
theorem TableOp.add_of_parse {world : World} {op : TableOp} {item : TransItemT} (member : item ∈ op.items world)
    (puts : item.toDel = false) {record : LocalAssocT} (parsed : LocalAssocT.parse item.value = some record) :
    op = .add .localAssoc record ∧ item.value = .localAssoc record := by
  cases op with
  | del name removed =>
    have deletes : ∀ item ∈ name.table.removeItems removed, item.toDel = true := by simp [StoreTable.removeItems]
    rw [deletes item member] at puts
    contradiction
  | add name added =>
    rcases List.mem_append.mp member with secondary | primary
    · obtain ⟨keytype, _, inKey⟩ := List.mem_flatMap.mp secondary
      rw [name.table.value_of_keyItems inKey puts] at parsed
      contradiction
    · obtain rfl := List.mem_singleton.mp primary
      cases name with
      | localAssoc =>
        cases parsed
        exact ⟨rfl, rfl⟩
      | inviteToken | ephemeralPublicKey | peer | peerPubKey | globalAssoc | validationSession | tokenAuth | parAvion |
        mailSent | accessKey | blobStore => contradiction

namespace StoreCache

/-- What an item of the table of local associations does to the cache. -/
def followItem (cache : AssocMap) (item : TransItemT) : AssocMap :=
  if HasType .kLocalAssoc item.key then
    match LocalAssocT.parse item.value with
    | none => cache
    | some record => if item.toDel then cache.erase (mediumAddress record) else cache.put (mediumAddress record) item.value
  else cache

def follow (cache : AssocMap) (items : List TransItemT) : AssocMap := items.foldl followItem cache

/-- Every local association comes before any key that the cache tries to decode and cannot. -/
def Follows : List TransItemT → Prop
  | [] => True
  | item :: rest => ((∃ later ∈ rest, HasType .kLocalAssoc later.key) → Cachable [item]) ∧ Follows rest

instance decidableFollows : (items : List TransItemT) → Decidable (Follows items)
  | [] => inferInstanceAs (Decidable True)
  | item :: rest =>
    have := decidableFollows rest
    inferInstanceAs (Decidable (((∃ later ∈ rest, HasType .kLocalAssoc later.key) → Cachable [item]) ∧ Follows rest))

theorem follow_append (cache : AssocMap) (first second : List TransItemT) :
    follow cache (first ++ second) = follow (follow cache first) second := List.foldl_append

/-- Items of other types do not matter. -/
theorem follow_of_other {items : List TransItemT} (other : ∀ item ∈ items, ¬ HasType .kLocalAssoc item.key)
    (cache : AssocMap) : follow cache items = cache := by
  induction items generalizing cache with
  | nil => rfl
  | cons item rest ih =>
    have head : followItem cache item = cache := if_neg (other item (List.mem_cons_self ..))
    rw [follow, List.foldl_cons, head]
    exact ih (fun later member => other later (List.mem_cons_of_mem _ member)) cache

theorem decode_type {keytype : KeyTypeE} {key : Bytes} (hasType : HasType keytype key) {usekey n : ℕ}
    (decoded : decodePrimaryKey key = .ok (usekey, n)) : usekey = keytype.number := by
  have front : key.take keyIdLen = hex keyIdLen keytype.number := by
    obtain ⟨rest, rfl⟩ := hasType
    exact List.take_left' (encodeKeyType_length keytype)
  have small : keytype.number < 16 ^ keyIdLen := keytype.number_lt
  rw [decodePrimaryKey] at decoded
  split at decoded
  · contradiction
  · obtain ⟨x, isX, decoded⟩ := bind_eq_ok.mp decoded
    obtain ⟨y, _, answer⟩ := bind_eq_ok.mp decoded
    rw [front, stoull_hex small (by decide) (small.trans (by decide))] at isX
    cases isX
    cases answer
    rfl

/-- The keys that a transaction can hold: each has a type, and a local association lies under a primary key. -/
structure Typed (item : TransItemT) : Prop where
  hasType : ∃ keytype, HasType keytype item.key
  primary : HasType .kLocalAssoc item.key → ∃ n < 2 ^ 64, item.key = encodePrimaryKey .kLocalAssoc n

/-- An item that can be decoded does to the cache what it says. -/
theorem addItem_eq {item : TransItemT} (typed : Typed item) (cachable : Cachable [item]) (cache : AssocMap) :
    addItem cache item = .ok (followItem cache item) := by
  rw [addItem, followItem]
  by_cases length : item.key.length = keyIdLen + nodeLen
  · rw [if_neg (not_not.mpr length)]
    have passed := cachable item (List.mem_singleton_self _) length
    cases decoded : decodePrimaryKey item.key with
    | error e =>
      rw [decoded] at passed
      contradiction
    | ok node =>
      obtain ⟨usekey, n⟩ := node
      obtain ⟨keytype, hasType⟩ := typed.hasType
      have number := decode_type hasType decoded
      simp only
      by_cases isLocal : HasType .kLocalAssoc item.key
      · rw [hasType.unique isLocal] at number
        rw [if_pos number, if_pos isLocal]
        cases LocalAssocT.parse item.value <;> rfl
      · have other : usekey ≠ KeyTypeE.kLocalAssoc.number := by
          rintro same
          exact isLocal (KeyTypeE.number_injective (number.symm.trans same) ▸ hasType)
        rw [if_neg other, if_neg isLocal]
  · rw [if_pos length, if_neg]
    intro isLocal
    obtain ⟨n, word, key⟩ := typed.primary isLocal
    exact length (key ▸ encodePrimaryKey_length word)

/-- What the cache holds after a transaction was there before, or is an association that the transaction puts. -/
theorem addToCache_cases {items : List TransItemT} {cache : AssocMap} {k : Bytes} {v : Value}
    (cached : (addToCache cache items).2.get? k = some v) :
    cache.get? k = some v ∨ ∃ item ∈ items, item.toDel = false ∧ item.value = v ∧
      ∃ record, LocalAssocT.parse v = some record ∧ k = mediumAddress record := by
  induction items generalizing cache with
  | nil => exact .inl cached
  | cons item rest ih =>
    rw [addToCache] at cached
    cases added : addItem cache item with
    | error e =>
      rw [added] at cached
      exact .inl cached
    | ok next =>
      rw [added] at cached
      rcases ih cached with here | ⟨later, member, puts⟩
      · rw [addItem] at added
        split at added
        · cases added
          exact .inl here
        · split at added
          · contradiction
          · split at added
            · split at added
              · cases added
                exact .inl here
              · next record parsed =>
                cases added
                split at here
                · rw [OrderedMap.get?_erase] at here
                  split at here
                  · contradiction
                  · exact .inl here
                · next puts =>
                  rw [OrderedMap.get?_put] at here
                  split at here
                  · next sameKey =>
                    cases here
                    exact .inr ⟨item, List.mem_cons_self .., Bool.eq_false_iff.mpr puts, rfl, record, parsed, sameKey⟩
                  · exact .inl here
            · cases added
              exact .inl here
      · exact .inr ⟨later, List.mem_cons_of_mem _ member, puts⟩

/-- The cache follows a transaction up to its last local association. -/
theorem addToCache_eq {items : List TransItemT} (typed : ∀ item ∈ items, Typed item) (follows : Follows items)
    (cache : AssocMap) : (addToCache cache items).2 = follow cache items := by
  induction items generalizing cache with
  | nil => rfl
  | cons item rest ih =>
    obtain ⟨decodes, followsRest⟩ := follows
    have typedItem := typed item (List.mem_cons_self ..)
    by_cases cachable : Cachable [item]
    · rw [addToCache, addItem_eq typedItem cachable]
      exact ih (fun later member => typed later (List.mem_cons_of_mem _ member)) followsRest _
    · -- the call ends here, and no local association is left
      have noMore : ∀ later ∈ rest, ¬ HasType .kLocalAssoc later.key := fun later member isLocal =>
        cachable (decodes ⟨later, member, isLocal⟩)
      have notLocal : ¬ HasType .kLocalAssoc item.key := by
        intro isLocal
        obtain ⟨n, word, key⟩ := typedItem.primary isLocal
        refine cachable fun other member _ => ?_
        rw [List.mem_singleton.mp member, key, decodePrimaryKey_encode _ word]
        rfl
      rw [follow_of_other (by simpa using ⟨notLocal, noMore⟩)]
      cases added : addItem cache item with
      | error e => rw [addToCache, added]
      | ok cache' =>
        have passed : (addToCache cache [item]).1 = .ok () := by
          rw [addToCache, added]
          rfl
        exact (cachable ((addToCache_ok_iff cache [item]).mp passed)).elim

theorem not_hasType_of_secondary {keytype : KeyTypeE} (member : keytype ∈ localAssocTable.secondaryKeys) {key : Bytes}
    (hasType : HasType keytype key) : ¬ HasType .kLocalAssoc key := fun isLocal =>
  StoreTable.secondaryKeys_ne_primaryKey member (hasType.unique isLocal)

/-- Following an association that is put. -/
theorem follow_recordItems (old : Option LocalAssocT) (record : LocalAssocT) (cache : AssocMap) :
    follow cache (localAssocTable.recordItems old record) = cache.put (mediumAddress record) (.localAssoc record) := by
  have secondary : follow cache (localAssocTable.secondaryKeys.flatMap (localAssocTable.keyItems old record)) = cache := by
    apply follow_of_other
    intro item member
    obtain ⟨keytype, inKeys, ofKey⟩ := List.mem_flatMap.mp member
    exact not_hasType_of_secondary inKeys (localAssocTable.keyItems_hasType inKeys item ofKey)
  have isLocal : HasType .kLocalAssoc (encodePrimaryKey localAssocTable.primaryKey (localAssocTable.id record)) :=
    hasType_encodePrimaryKey ..
  rw [StoreTable.recordItems, follow_append, secondary, follow, List.foldl_cons, List.foldl_nil, followItem,
    if_pos isLocal]
  rfl

/-- Following a deletion. The item carries no value, so the entry of the empty address goes. -/
theorem follow_removeItems (record : LocalAssocT) (cache : AssocMap) :
    follow cache (localAssocTable.removeItems record) = cache.erase (mediumAddress default) := by
  have isLocal : HasType .kLocalAssoc (encodePrimaryKey localAssocTable.primaryKey (localAssocTable.id record)) :=
    hasType_encodePrimaryKey ..
  rw [StoreTable.removeItems, follow, List.foldl_cons, followItem, if_pos isLocal]
  refine follow_of_other ?_ _
  intro item member
  obtain ⟨keytype, inKeys, rfl⟩ := List.mem_map.mp member
  exact not_hasType_of_secondary inKeys (StoreTable.hasType_getKey inKeys record false)

/-- The items of a call on the table of local associations. -/
theorem typed_recordItems {old : Option LocalAssocT} {record : LocalAssocT} (word : record.id < 2 ^ 64)
    {item : TransItemT} (member : item ∈ localAssocTable.recordItems old record) : Typed item := by
  obtain ⟨keytype, _, hasType⟩ := localAssocTable.recordItems_hasType member
  refine ⟨⟨keytype, hasType⟩, fun isLocal => ⟨record.id, word, ?_⟩⟩
  rw [(localAssocTable.mem_recordItems_primary isLocal).mp member]
  rfl

theorem typed_removeItems {record : LocalAssocT} (word : record.id < 2 ^ 64) {item : TransItemT}
    (member : item ∈ localAssocTable.removeItems record) : Typed item := by
  rcases List.mem_cons.mp member with rfl | secondary
  · exact ⟨⟨.kLocalAssoc, hasType_encodePrimaryKey ..⟩, fun _ => ⟨record.id, word, rfl⟩⟩
  · obtain ⟨keytype, inKeys, rfl⟩ := List.mem_map.mp secondary
    have hasType := StoreTable.hasType_getKey inKeys record false
    exact ⟨⟨keytype, hasType⟩, fun isLocal => (not_hasType_of_secondary inKeys hasType isLocal).elim⟩

/-- The items of a call on another table. -/
theorem typed_of_other {name : TableName} (other : name ≠ .localAssoc) {item : TransItemT}
    (ofTable : ∃ keytype ∈ name.keyTypes, HasType keytype item.key) :
    Typed item ∧ ¬ HasType .kLocalAssoc item.key := by
  obtain ⟨keytype, inKeys, hasType⟩ := ofTable
  have notLocal : ¬ HasType .kLocalAssoc item.key := fun isLocal =>
    TableName.keyTypes_disjoint other inKeys (hasType.unique isLocal ▸ List.mem_cons_self ..)
  exact ⟨⟨⟨keytype, hasType⟩, fun isLocal => (notLocal isLocal).elim⟩, notLocal⟩

/-- What a call on another table appends does not reach the cache. -/
theorem items_other {world : World} {op : TableOp} (other : op.name ≠ .localAssoc) {item : TransItemT}
    (member : item ∈ op.items world) : Typed item ∧ ¬ HasType .kLocalAssoc item.key :=
  typed_of_other other (TableOp.items_dataKey member)

theorem follows_of_other {items : List TransItemT} (other : ∀ item ∈ items, ¬ HasType .kLocalAssoc item.key) :
    Follows items := by
  induction items with
  | nil => trivial
  | cons item rest ih =>
    refine ⟨?_, ih fun later member => other later (List.mem_cons_of_mem _ member)⟩
    rintro ⟨later, member, isLocal⟩
    exact (other later (List.mem_cons_of_mem _ member) isLocal).elim

theorem Follows.append {first second : List TransItemT} (follows : Follows first)
    (other : ∀ item ∈ second, ¬ HasType .kLocalAssoc item.key) : Follows (first ++ second) := by
  induction first with
  | nil => exact follows_of_other other
  | cons item rest ih =>
    refine ⟨?_, ih follows.2⟩
    rintro ⟨later, member, isLocal⟩
    rcases List.mem_append.mp member with inRest | inSecond
    · exact follows.1 ⟨later, inRest, isLocal⟩
    · exact (other later inSecond isLocal).elim

end StoreCache

end Identt.Store
