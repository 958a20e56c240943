import Identt.Hrpc.SyncServer
import Identt.Store.LastId
import Identt.Store.LogView
import Identt.Store.RecordCalls

/-! # Transactions that the cache cannot follow

`AddToCache` takes every key that is as long as a primary key for one and reads the identifier behind its
key type. A secondary key of that length holds free text there, so a transaction gets through exactly when
each such text begins like a hexadecimal number.
-/

namespace Identt

section Numbers

theorem leadingDigits_lt {base : ℕ} (text : Bytes) : ∀ digit ∈ leadingDigits base text, digit < base := by
  induction text with
  | nil => simp [leadingDigits]
  | cons c rest ih =>
    rw [leadingDigits]
    split
    · next digit value =>
      intro other member
      rcases List.mem_cons.mp member with rfl | inRest
      · exact Store.digitValue_lt value
      · exact ih other inRest
    · simp

theorem leadingDigits_length_le (base : ℕ) (text : Bytes) : (leadingDigits base text).length ≤ text.length := by
  induction text with
  | nil => simp [leadingDigits]
  | cons c rest ih =>
    rw [leadingDigits]
    split
    · simpa using ih
    · simp

theorem leadingDigits_eq_nil_iff {base : ℕ} {text : Bytes} :
    leadingDigits base text = [] ↔ text.head?.bind (digitValue base) = none := by
  cases text with
  | nil => simp [leadingDigits]
  | cons c rest =>
    simp only [leadingDigits, List.head?_cons, Option.bind_some]
    split <;> simp_all

/-- The optional `0x` does not change whether there is a digit. -/
theorem leadingDigits_skipMark_eq_nil_iff {text : Bytes} :
    leadingDigits 16 (skipMark 16 text) = [] ↔ leadingDigits 16 text = [] := by
  unfold skipMark
  split
  · next x c rest =>
    split
    · next mark =>
      obtain ⟨digit, value⟩ := Option.isSome_iff_exists.mp mark.2.2
      have zero : digitValue 16 48 = some 0 := by decide
      simp [leadingDigits, value, zero]
    · rfl
  · rfl

theorem skipMark_length_le (base : ℕ) (text : Bytes) : (skipMark base text).length ≤ text.length := by
  unfold skipMark
  split
  · split <;> simp
  · rfl

end Numbers

namespace Store

/-- The text begins, after blanks and a sign, with a hexadecimal digit. -/
def BeginsWithDigit (text : Bytes) : Prop :=
  let text := text.dropWhile isSpace
  let text := if text.head? = some 45 ∨ text.head? = some 43 then text.tail else text
  (text.head?.bind (digitValue 16)).isSome

/-- A text no longer than an identifier is read as a number if it begins with a digit. -/
theorem stoull_isOk_iff {text : Bytes} (short : text.length ≤ nodeLen) :
    (stoull 16 text).isOk ↔ BeginsWithDigit text := by
  have dropped : (text.dropWhile isSpace).length ≤ nodeLen :=
    (List.dropWhile_suffix _).length_le.trans short
  rw [stoull, stoa, BeginsWithDigit]
  generalize text.dropWhile isSpace = text at dropped
  have unsigned : (if text.head? = some 45 ∨ text.head? = some 43 then text.tail else text).length ≤ nodeLen := by
    split
    · rw [List.length_tail]
      omega
    · exact dropped
  generalize (if text.head? = some 45 ∨ text.head? = some 43 then text.tail else text) = digits at unsigned
  have bound : Radix.value 16 (leadingDigits 16 (skipMark 16 digits)) < 2 ^ 64 := by
    calc
      Radix.value 16 (leadingDigits 16 (skipMark 16 digits))
          < 16 ^ (leadingDigits 16 (skipMark 16 digits)).length := Radix.value_lt (leadingDigits_lt _)
      _ ≤ 16 ^ nodeLen := by
        apply Nat.pow_le_pow_right (by omega)
        exact (leadingDigits_length_le ..).trans ((skipMark_length_le ..).trans unsigned)
      _ = 2 ^ 64 := by decide
  have first : leadingDigits 16 (skipMark 16 digits) = [] ↔ ¬ (digits.head?.bind (digitValue 16)).isSome := by
    rw [leadingDigits_skipMark_eq_nil_iff, leadingDigits_eq_nil_iff, Option.not_isSome_iff_eq_none]
  by_cases empty : leadingDigits 16 (skipMark 16 digits) = []
  · simp only [empty, if_true]
    exact iff_of_false (by decide) (first.mp empty)
  · simp only [empty, if_false, if_neg (not_le.mpr bound)]
    exact iff_of_true rfl (not_not.mp (mt first.mpr empty))

/-- The cache can decode the key, if it is long enough for it to try. -/
def KeyReadable (key : Bytes) : Prop := key.length = keyIdLen + nodeLen → BeginsWithDigit (key.drop keyIdLen)

/-- `AddRecord` touches only readable keys when it moves the index entry of a record: the keys of the record and
of the one that it replaces, where they differ. -/
def StoreTable.MoveReadable {T : Type} (table : StoreTable T) (old : Option T) (record : T) (keytype : KeyTypeE) : Prop :=
  let new := table.getKey record keytype false
  match old with
  | some old =>
    let stale := table.getKey old keytype false
    stale ≠ new → KeyReadable stale ∧ KeyReadable new
  | none => KeyReadable new

/-- The secondary keys that the call puts or deletes are readable. -/
def RecordCall.Readable (db : DB) : RecordCall → Prop
  | .addRecord name record upsert =>
    (name.table.addRecord db record {} upsert).map Prod.fst = .ok true → ∀ keytype ∈ name.table.secondaryKeys,
      name.table.MoveReadable (name.table.oldRecord db record) record keytype
  | .delRecord name record =>
    name.table.notfound record = false → ∀ keytype ∈ name.table.secondaryKeys,
      KeyReadable (name.table.getKey record keytype false)

section Cachable

open StoreCache

theorem cachable_cons {item : TransItemT} {rest : List TransItemT} :
    Cachable (item :: rest) ↔ Cachable [item] ∧ Cachable rest := by
  simp [Cachable]

theorem cachable_append {first second : List TransItemT} :
    Cachable (first ++ second) ↔ Cachable first ∧ Cachable second := by
  simp only [Cachable, List.mem_append, or_imp, forall_and]

theorem cachable_flatMap {α : Type*} {calls : List α} {items : α → List TransItemT} :
    Cachable (calls.flatMap items) ↔ ∀ call ∈ calls, Cachable (items call) := by
  simp only [Cachable, List.mem_flatMap]
  constructor
  · exact fun all call member item ofCall => all item ⟨call, member, ofCall⟩
  · rintro each item ⟨call, member, ofCall⟩
    exact each call member item ofCall

/-- What the cache needs of an item with a secondary key. -/
theorem cachable_singleton_iff {keytype : KeyTypeE} {item : TransItemT} (ofType : HasType keytype item.key) :
    Cachable [item] ↔ KeyReadable item.key := by
  obtain ⟨text, here⟩ := ofType
  have front : (encodeKeyType keytype).length = keyIdLen := encodeKeyType_length keytype
  have typed : stoull 16 (encodeKeyType keytype) = .ok keytype.number :=
    stoull_hex keytype.number_lt (by decide) (keytype.number_lt.trans (by decide))
  have decodes (length : item.key.length = keyIdLen + nodeLen) :
      (decodePrimaryKey item.key).isOk ↔ BeginsWithDigit (item.key.drop keyIdLen) := by
    have width : text.length = nodeLen := by
      rw [← here, List.length_append, front] at length
      omega
    rw [← stoull_isOk_iff (by rw [← here, List.drop_left' front, width]), decodePrimaryKey, if_neg (by omega), ← here,
      List.take_left' front, List.drop_left' front, List.take_of_length_le (by omega), typed]
    cases stoull 16 text <;> rfl
  constructor
  · exact fun cachable length => (decodes length).mp (cachable item (List.mem_singleton_self _) length)
  · intro readable other member length
    obtain rfl := List.mem_singleton.mp member
    exact (decodes length).mpr (readable length)

variable {T : Type} {table : StoreTable T}

theorem cachable_keyItems_iff {old : Option T} {record : T} {keytype : KeyTypeE}
    (member : keytype ∈ table.secondaryKeys) :
    Cachable (table.keyItems old record keytype) ↔ table.MoveReadable old record keytype := by
  have ofKey (other : T) (value : Value) (toDel : Bool) :
      Cachable [⟨table.getKey other keytype false, value, toDel⟩] ↔ KeyReadable (table.getKey other keytype false) :=
    cachable_singleton_iff (StoreTable.hasType_getKey member other false)
  cases old with
  | none => exact ofKey record _ _
  | some old =>
    simp only [StoreTable.keyItems, StoreTable.MoveReadable]
    split
    · next moved => rw [cachable_cons, ofKey, ofKey, forall_prop_of_true moved]
    · next same =>
      rw [forall_prop_of_false same, iff_true]
      exact fun _ inNil => (List.not_mem_nil inNil).elim

/-- The cache gets through the items of a call exactly if the secondary keys it touches are readable. -/
theorem cachable_items_iff (db : DB) (call : RecordCall) : Cachable (call.items db) ↔ call.Readable db := by
  have nothing : Cachable [] := fun _ inNil => (List.not_mem_nil inNil).elim
  cases call with
  | addRecord name record upsert =>
    rcases name.table.addRecord_appends db record upsert with ⟨e, answer⟩ | answer | answer
    · simp [RecordCall.items, RecordCall.build, RecordCall.Readable, answer, nothing, Except.map]
    · simp [RecordCall.items, RecordCall.build, RecordCall.Readable, answer, nothing, Except.map]
    · have items : (RecordCall.addRecord name record upsert).items db =
          name.table.recordItems (name.table.oldRecord db record) record := by
        simp [RecordCall.items, RecordCall.build, answer]
      rw [items, StoreTable.recordItems, cachable_append, and_iff_left (cachable_primary _ _ _ _), cachable_flatMap,
        RecordCall.Readable, answer]
      exact ⟨fun each _ keytype member => (cachable_keyItems_iff member).mp (each keytype member),
        fun each keytype member => (cachable_keyItems_iff member).mpr (each rfl keytype member)⟩
  | delRecord name record =>
    simp only [RecordCall.items, RecordCall.build, RecordCall.Readable, StoreTable.delRecord_eq]
    split
    · next missing => simp [missing, nothing]
    · next found =>
      rw [TransactionT.append_item, List.nil_append, StoreTable.removeItems, cachable_cons,
        and_iff_right (cachable_primary _ _ _ _), List.map_eq_flatMap, cachable_flatMap]
      have ofKey (keytype : KeyTypeE) (member : keytype ∈ name.table.secondaryKeys) :
          Cachable [⟨name.table.getKey record keytype false, .empty, true⟩] ↔
            KeyReadable (name.table.getKey record keytype false) :=
        cachable_singleton_iff (StoreTable.hasType_getKey member record false)
      exact ⟨fun each _ keytype member => (ofKey keytype member).mp (each keytype member),
        fun each keytype member => (ofKey keytype member).mpr (each (Bool.eq_false_iff.mpr found) keytype member)⟩

end Cachable

end Store

namespace Hrpc

open Store StoreTrans

/-- Nothing stops behind the cache: it gets through the transaction, a commit whose log and data were written
succeeds, and a slave that receives the transaction commits it. -/
structure NeverStops (transaction : TransactionT) : Prop where
  cache : ∀ cache, (StoreCache.addToCache cache transaction.item).1 = .ok ()
  commit : ∀ env st isMaster, env.logPut = true → env.dataWrite = true →
    (commit env st transaction isMaster).1 = .ok ()
  slave : ∀ env st ts, env.logPut = true → env.dataWrite = true →
    (commitReceived env st [{ transaction with id := st.logcounter + 1, ts := ts }]).1 = .ok ()

/-- A transaction of calls never stops exactly if all secondary keys that the calls touch are readable. -/
theorem neverStops_iff (calls : List (DB × RecordCall)) :
    NeverStops (buildAll calls) ↔ ∀ call ∈ calls, call.2.Readable call.1 := by
  have cachable : StoreCache.Cachable (buildAll calls).item ↔ ∀ call ∈ calls, call.2.Readable call.1 := by
    rw [buildAll_item, cachable_flatMap]
    exact forall₂_congr fun call _ => cachable_items_iff call.1 call.2
  constructor
  · intro never
    exact cachable.mp ((StoreCache.addToCache_ok_iff .empty _).mp (never.cache .empty))
  · intro readable
    have passes := cachable.mpr readable
    have commits (env : CommitEnv) (st : SharedTable) (transaction : TransactionT)
        (items : transaction.item = (buildAll calls).item) (isMaster : Bool) (logged : env.logPut = true)
        (written : env.dataWrite = true) : (commit env st transaction isMaster).1 = .ok () := by
      by_cases empty : transaction.item = []
      · rw [commit_nil env st isMaster empty]
      · exact (commit_written st isMaster empty logged written).1.mpr fun _ => items ▸ passes
    refine ⟨fun cache => (StoreCache.addToCache_ok_iff cache _).mpr passes,
      fun env st isMaster => commits env st _ rfl isMaster, fun env st ts logged written => ?_⟩
    have done := commits env st { buildAll calls with id := st.logcounter + 1, ts := ts } rfl false logged written
    rw [commitReceived, if_neg (not_not.mpr rfl)]
    split
    · rfl
    · next failed =>
      rw [failed] at done
      contradiction

/-- A phone number of nine digits is bound. -/
def phoneCalls : List (DB × RecordCall) :=
  let record : LocalAssocT := { id := 2, medium := ascii "msisdn", address := ascii "123456789" }
  [(.empty, .addRecord .localAssoc record false)]

/-- The index key of the association has eighteen characters and `m` where the identifier would begin. The
commit writes log and data and then reports a failure, and a slave stops on the transaction. -/
theorem phoneCalls_stop :
    (¬ ∀ calls, NeverStops (buildAll calls)) ∧
      (commit { now := 5 } { lookupUsesLocal := true } (buildAll phoneCalls) true).1 = .error (.invalidArgument "stoull") ∧
      ((commit { now := 5 } { lookupUsesLocal := true } (buildAll phoneCalls) true).2.maindb.get?
        (encodePrimaryKey .kLocalAssoc 2)).isSome = true ∧
      (commitReceived { now := 5 } { lookupUsesLocal := true } [{ buildAll phoneCalls with id := 1 }]).1 =
        .error (.invalidArgument "stoull") := by
  refine ⟨fun never => ?_, by decide +kernel, by decide +kernel, by decide +kernel⟩
  have through := (never phoneCalls).cache .empty
  revert through
  decide +kernel

end Hrpc

end Identt
