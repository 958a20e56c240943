import Identt.Store.Tables

/-! # The cache of local associations (`StoreCache`)

The cache maps the joined medium and address to a serialised record and follows the transactions
that a node commits.
-/

namespace Identt.Store

namespace StoreCache

abbrev AssocMap := OrderedMap Bytes Value

def mediumAddress (record : LocalAssocT) : Bytes :=
  encodeSecondaryKey .uLocalAssocMediumAddress [.strn record.medium, .strn record.address]

/-- One round of the loop of `AddToCache`. -/
def addItem (cache : AssocMap) (item : TransItemT) : Except Exn AssocMap :=
  if item.key.length ≠ keyIdLen + nodeLen then .ok cache
  else
    match decodePrimaryKey item.key with
    | .error e => .error e
    | .ok (usekey, _) =>
      if usekey = KeyTypeE.kLocalAssoc.number then
        match LocalAssocT.parse item.value with
        | none => .ok cache
        | some record =>
          .ok (if item.toDel then cache.erase (mediumAddress record)
            else cache.put (mediumAddress record) item.value)
      else .ok cache

/-- Follow the items of a transaction; an item whose key cannot be decoded ends the call. -/
def addToCache (cache : AssocMap) : List TransItemT → Except Exn Unit × AssocMap
  | [] => (.ok (), cache)
  | item :: rest =>
    match addItem cache item with
    | .error e => (.error e, cache)
    | .ok cache => addToCache cache rest

/-- Whether `AddToCache` gets through the items; the cache itself does not matter for it. -/
def Cachable (items : List TransItemT) : Prop :=
  ∀ item ∈ items, item.key.length = keyIdLen + nodeLen → (decodePrimaryKey item.key).isOk

instance (items : List TransItemT) : Decidable (Cachable items) :=
  inferInstanceAs (Decidable (∀ item ∈ items, _ → _))

theorem addToCache_ok_iff (cache : AssocMap) (items : List TransItemT) :
    (addToCache cache items).1 = .ok () ↔ Cachable items := by
  induction items generalizing cache with
  | nil => simp [addToCache, Cachable]
  | cons item rest ih =>
    have split : Cachable (item :: rest) ↔
        (item.key.length = keyIdLen + nodeLen → (decodePrimaryKey item.key).isOk) ∧ Cachable rest := by
      simp [Cachable]
    rw [split, addToCache]
    by_cases length : item.key.length = keyIdLen + nodeLen
    · cases decoded : decodePrimaryKey item.key with
      | error e => simp [addItem, length, decoded, Except.isOk, Except.toBool]
      | ok node =>
        obtain ⟨usekey, id⟩ := node
        have passed : ∃ cache', addItem cache item = .ok cache' := by
          simp only [addItem, length, decoded, ne_eq, not_true_eq_false, if_false]
          split
          · split <;> exact ⟨_, rfl⟩
          · exact ⟨_, rfl⟩
        obtain ⟨cache', added⟩ := passed
        rw [added]
        simp [ih, Except.isOk, Except.toBool]
    · have added : addItem cache item = .ok cache := by rw [addItem, if_pos length]
      rw [added]
      simp [ih, length]

end StoreCache

end Identt.Store
