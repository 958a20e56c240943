import Mathlib.Data.Prod.Lex
import Identt.Store.LastId
import Identt.Store.LogRead
import Identt.Store.Represents

/-! # Keys as they are streamed (`IDENTT_FMT_*`)

The keys are put into a stream whose base and fill stay as they were set, while its width is for the next output only.
What comes out are numbers of a fixed width, so the order of the keys as bytes is that of key type and identifier, and
an iterator that starts at a key goes through the records of its type.
-/

namespace Identt.Store

/-- A `std::stringstream` with what its manipulators set. -/
structure KeyStream where
  text : Bytes := []
  base : ℕ := 10
  fill : UInt8 := 32
  width : ℕ := 0

namespace KeyStream

def setbase (ss : KeyStream) (base : ℕ) : KeyStream := { ss with base := base }

def setfill (ss : KeyStream) (fill : UInt8) : KeyStream := { ss with fill := fill }

def setw (ss : KeyStream) (width : ℕ) : KeyStream := { ss with width := width }

/-- What an output does: it is filled up on the left, and the width is forgotten. -/
def put (ss : KeyStream) (output : Bytes) : KeyStream :=
  { ss with text := ss.text ++ List.replicate (ss.width - output.length) ss.fill ++ output, width := 0 }

/-- An unsigned number, in the base that is set. -/
def putNumber (ss : KeyStream) (n : ℕ) : KeyStream := ss.put ((Radix.numeral ss.base 1 n).map digitChar)

/-- `IDENTT_MACRO_HEX`. -/
def macroHex (ss : KeyStream) (width : ℕ) : KeyStream := ((ss.setbase 16).setfill 48).setw width

/-- `IDENTT_FMT_ID_KEY`. -/
def fmtIdKey (ss : KeyStream) (n : ℕ) : KeyStream := (ss.macroHex keyIdLen).putNumber n

/-- `IDENTT_FMT_NODE_ONLY`. -/
def fmtNodeOnly (ss : KeyStream) (n : ℕ) : KeyStream := (ss.macroHex nodeLen).putNumber n

/-- `IDENTT_FMT_NODE_KEY`. -/
def fmtNodeKey (ss : KeyStream) (m n : ℕ) : KeyStream := (ss.fmtIdKey m).fmtNodeOnly n

/-- `EncodeKeyType`, for any number of a key type; it goes out as an `unsigned short`. -/
def encodeKeyType (keytype : ℕ) : Bytes := (fmtIdKey {} (keytype % 2 ^ 16)).text

/-- `EncodePrimaryKey`. -/
def encodePrimaryKey (keytype id : ℕ) : Bytes := (fmtNodeKey {} (keytype % 2 ^ 16) id).text

section Output

variable (ss : KeyStream)

/-- Filling a number up with zeros. -/
theorem replicate_append_numeral {width : ℕ} (positive : 1 ≤ width) (n : ℕ) :
    List.replicate (width - ((Radix.numeral 16 1 n).map digitChar).length) 48 ++ (Radix.numeral 16 1 n).map digitChar =
      hex width n := by
  have zero : (48 : UInt8) = digitChar 0 := by decide
  rw [List.length_map, hex, zero, ← List.map_replicate, ← List.map_append]
  congr 1
  simp only [Radix.numeral, List.length_append, List.length_replicate, List.length_reverse]
  rw [← List.append_assoc, List.replicate_append_replicate]
  congr 2
  omega

theorem macroHex_putNumber {width : ℕ} (positive : 1 ≤ width) (n : ℕ) :
    (ss.macroHex width).putNumber n = { text := ss.text ++ hex width n, base := 16, fill := 48, width := 0 } := by
  simp only [macroHex, setbase, setfill, setw, putNumber, put, List.append_assoc, replicate_append_numeral positive]

/-- Whatever was set before, a number goes out with its own width. -/
theorem fmtIdKey_text (n : ℕ) : (ss.fmtIdKey n).text = ss.text ++ hex keyIdLen n := by
  rw [fmtIdKey, macroHex_putNumber ss (by decide)]

theorem fmtNodeOnly_text (n : ℕ) : (ss.fmtNodeOnly n).text = ss.text ++ hex nodeLen n := by
  rw [fmtNodeOnly, macroHex_putNumber ss (by decide)]

end Output

section Keys

variable {t t' m n : ℕ}

theorem encodeKeyType_eq (small : t < 256) : encodeKeyType t = hex keyIdLen t := by
  rw [encodeKeyType, fmtIdKey_text, Nat.mod_eq_of_lt (by omega)]
  rfl

theorem encodePrimaryKey_eq (t n : ℕ) : encodePrimaryKey t n = encodeKeyType t ++ hex nodeLen n := by
  rw [encodePrimaryKey, fmtNodeKey, fmtNodeOnly_text, encodeKeyType]

/-- What is streamed is the key. -/
theorem encodePrimaryKey_keytype (keytype : KeyTypeE) (n : ℕ) :
    encodePrimaryKey keytype.number n = Store.encodePrimaryKey keytype n := by
  rw [encodePrimaryKey_eq, encodeKeyType_eq keytype.number_lt]
  rfl

theorem encodeKeyType_length (small : t < 256) : (encodeKeyType t).length = keyIdLen := by
  rw [encodeKeyType_eq small]
  exact hex_length small

theorem hasType_encodePrimaryKey (t n : ℕ) : encodeKeyType t <+: encodePrimaryKey t n := by
  rw [encodePrimaryKey_eq t]
  exact List.prefix_append ..

theorem decode_encode (small : t < 256) (word : n < 2 ^ 64) : decodePrimaryKey (encodePrimaryKey t n) = .ok (t, n) := by
  rw [encodePrimaryKey_eq t, encodeKeyType_eq small]
  exact decodePrimaryKey_hex small word

theorem encodePrimaryKey_lt_of_type (small : t < 256) (small' : t' < 256) (lower : t < t') (m n : ℕ) :
    encodePrimaryKey t m < encodePrimaryKey t' n := by
  rw [encodePrimaryKey_eq t, encodePrimaryKey_eq t']
  refine append_lt_append_of_lt ?_ ?_ _ _
  · rw [encodeKeyType_length small, encodeKeyType_length small']
  · rw [encodeKeyType_eq small, encodeKeyType_eq small', hex_lt_iff small small']
    exact lower

theorem encodePrimaryKey_lt_iff_id (t : ℕ) (mWord : m < 2 ^ 64) (nWord : n < 2 ^ 64) :
    encodePrimaryKey t m < encodePrimaryKey t n ↔ m < n := by
  rw [encodePrimaryKey_eq t, encodePrimaryKey_eq t, append_lt_append_iff,
    hex_lt_iff (by simpa [nodeLen] using mWord) (by simpa [nodeLen] using nWord)]

/-- The keys are in the order of key type and identifier. -/
theorem encodePrimaryKey_lt_iff (small : t < 256) (small' : t' < 256) (mWord : m < 2 ^ 64) (nWord : n < 2 ^ 64) :
    encodePrimaryKey t m < encodePrimaryKey t' n ↔ toLex (t, m) < toLex (t', n) := by
  rw [Prod.Lex.toLex_lt_toLex]
  rcases lt_trichotomy t t' with lower | rfl | higher
  · exact iff_of_true (encodePrimaryKey_lt_of_type small small' lower m n) (.inl lower)
  · rw [encodePrimaryKey_lt_iff_id t mWord nWord]
    simp
  · refine iff_of_false (encodePrimaryKey_lt_of_type small' small higher n m).asymm ?_
    rintro (lower | ⟨same, -⟩)
    · exact higher.asymm lower
    · exact higher.ne' same

end Keys

section Visited

variable {ν : Type}

/-- What an iterator visits that starts at a key, as long as the keys have its type. -/
def visited (db : OrderedMap Bytes ν) (keytype id : ℕ) : List (Bytes × ν) :=
  (db.seek (encodePrimaryKey keytype id)).takeWhile fun entry => (encodeKeyType keytype).isPrefixOf entry.1

/-- What is stored under a key type are records of 64-bit identifiers; other keys are as they like. -/
def OnlyRecords (db : OrderedMap Bytes ν) (keytype : ℕ) : Prop :=
  ∀ key value, db.get? key = some value → encodeKeyType keytype <+: key →
    ∃ id < 2 ^ 64, key = encodePrimaryKey keytype id

/-- The entries of the records from an identifier on, in the order of the identifiers. -/
def VisitsRecords (db : OrderedMap Bytes ν) (keytype first : ℕ) : Prop :=
  ∃ ids : List ℕ, ids.Pairwise (· < ·) ∧
    (∀ id, id ∈ ids ↔ first ≤ id ∧ id < 2 ^ 64 ∧ (db.get? (encodePrimaryKey keytype id)).isSome) ∧
    (visited db keytype first).map (fun entry => (entry.1, some entry.2)) =
      ids.map fun id => (encodePrimaryKey keytype id, db.get? (encodePrimaryKey keytype id))

variable {db : OrderedMap Bytes ν} {t first : ℕ}

theorem mem_visited {entry : Bytes × ν} : entry ∈ visited db t first ↔
    db.get? entry.1 = some entry.2 ∧ ¬ entry.1 < encodePrimaryKey t first ∧ encodeKeyType t <+: entry.1 :=
  OrderedMap.mem_seek_takeWhile (hasType_encodePrimaryKey t first)

theorem visited_sorted (db : OrderedMap Bytes ν) (t first : ℕ) :
    (visited db t first).Pairwise fun a b => a.1 < b.1 :=
  (db.seek_sorted _).sublist (List.takeWhile_sublist _)

/-- The iterator goes through the records in order. -/
theorem visitsRecords (small : t < 256) (word : first < 2 ^ 64) (only : OnlyRecords db t) : VisitsRecords db t first := by
  have made : ∀ entry ∈ visited db t first, ∃ id, first ≤ id ∧ id < 2 ^ 64 ∧ entry.1 = encodePrimaryKey t id ∧
      db.get? (encodePrimaryKey t id) = some entry.2 := by
    intro entry member
    obtain ⟨has, notBelow, ofType⟩ := mem_visited.mp member
    obtain ⟨id, idWord, same⟩ := only _ _ has ofType
    rw [same, encodePrimaryKey_lt_iff_id t idWord word] at notBelow
    exact ⟨id, not_lt.mp notBelow, idWord, same, same ▸ has⟩
  -- the identifiers are read off the keys
  let number (entry : Bytes × ν) : ℕ := ((decodePrimaryKey entry.1).toOption.map Prod.snd).getD 0
  have numbered {entry : Bytes × ν} {id : ℕ} (same : entry.1 = encodePrimaryKey t id) (idWord : id < 2 ^ 64) :
      number entry = id := by
    simp only [number, same, decode_encode small idWord]
    rfl
  refine ⟨(visited db t first).map number, ?_, fun id => ?_, ?_⟩
  · refine List.pairwise_map.mpr ((visited_sorted db t first).imp_of_mem fun {a b} inA inB less => ?_)
    obtain ⟨m, _, mWord, sameA, _⟩ := made a inA
    obtain ⟨n, _, nWord, sameB, _⟩ := made b inB
    rw [sameA, sameB, encodePrimaryKey_lt_iff_id t mWord nWord] at less
    rwa [numbered sameA mWord, numbered sameB nWord]
  · rw [List.mem_map]
    constructor
    · rintro ⟨entry, member, rfl⟩
      obtain ⟨id, bound, idWord, same, has⟩ := made entry member
      rw [numbered same idWord]
      exact ⟨bound, idWord, Option.isSome_iff_exists.mpr ⟨_, has⟩⟩
    · rintro ⟨bound, idWord, stored⟩
      obtain ⟨value, has⟩ := Option.isSome_iff_exists.mp stored
      refine ⟨(encodePrimaryKey t id, value), mem_visited.mpr ⟨has, ?_, hasType_encodePrimaryKey t id⟩,
        numbered rfl idWord⟩
      rw [encodePrimaryKey_lt_iff_id t idWord word]
      exact not_lt.mpr bound
  · rw [List.map_map]
    refine List.map_congr_left fun entry member => ?_
    obtain ⟨id, _, idWord, same, has⟩ := made entry member
    simp only [Function.comp_apply, numbered same idWord, same, has]

/-- What `ScanTable` goes through. -/
theorem scanTable_visited {T σ : Type} (table : StoreTable T) (db : DB) (startid limit : ℕ) (func : σ → T → σ)
    (state : σ) : table.scanTable db startid limit func state = table.scanRecords limit func 0 state
      (visited db table.primaryKey.number (if 0 < startid then startid else 1)) := by
  rw [StoreTable.scanTable, visited, encodePrimaryKey_keytype, encodeKeyType_eq table.primaryKey.number_lt]
  rfl

/-- What `ReadLog` goes through. -/
theorem logTail_visited (st : SharedTable) (lastid : ℕ) :
    logTail st lastid = visited st.logStore KeyTypeE.kLogNode.number lastid := by
  rw [logTail, visited, encodePrimaryKey_keytype, encodeKeyType_eq KeyTypeE.kLogNode.number_lt]
  rfl

/-- A store that represents a table has only records under its key type. -/
theorem onlyRecords_of_represents {T : Type} {table : StoreTable T} {db : DB} {records : ℕ → Option T}
    (represents : table.Represents db records) (word : ∀ n record, records n = some record → n < 2 ^ 64) :
    OnlyRecords db table.primaryKey.number := by
  intro key value has ofType
  rw [encodeKeyType_eq table.primaryKey.number_lt] at ofType
  obtain ⟨n, rfl⟩ := represents.primary_only key value ofType has
  refine ⟨n, ?_, (encodePrimaryKey_keytype _ _).symm⟩
  by_cases zero : n = 0
  · omega
  · rw [represents.primary n zero] at has
    obtain ⟨record, stored, -⟩ := Option.map_eq_some_iff.mp has
    exact word n record stored

/-- So has the log. -/
theorem onlyRecords_of_log {st : SharedTable} (log : LogOf st) (word : st.logcounter < 2 ^ 64) :
    OnlyRecords st.logStore KeyTypeE.kLogNode.number := by
  intro key value has ofType
  rw [encodeKeyType_eq KeyTypeE.kLogNode.number_lt] at ofType
  rcases log key value ofType has with ⟨fence, -⟩ | ⟨record, -, here, -, bound⟩
  · exact ⟨0, by omega, fence.trans (encodePrimaryKey_keytype _ _).symm⟩
  · exact ⟨record.id, by omega, here.trans (encodePrimaryKey_keytype _ _).symm⟩

end Visited

/-- Primary keys are read back and ordered like their pairs of key type and identifier, so that an iterator visits
the records of its type from its start on, in order, among whatever other keys: in every map, and so in tables and in
the log. -/
theorem primaryKeys_ordered :
    (∀ t < 256, ∀ n < 2 ^ 64, decodePrimaryKey (encodePrimaryKey t n) = .ok (t, n)) ∧
    (∀ t < 256, ∀ t' < 256, ∀ m < 2 ^ 64, ∀ n < 2 ^ 64,
      (encodePrimaryKey t m < encodePrimaryKey t' n ↔ toLex (t, m) < toLex (t', n))) ∧
    (∀ (ν : Type) (db : OrderedMap Bytes ν), ∀ t < 256, ∀ n < 2 ^ 64, OnlyRecords db t → VisitsRecords db t n) ∧
    (∀ (T : Type) (table : StoreTable T) (db : DB) (records : ℕ → Option T), table.Represents db records →
      (∀ n record, records n = some record → n < 2 ^ 64) → ∀ n < 2 ^ 64, VisitsRecords db table.primaryKey.number n) ∧
    (∀ st : SharedTable, LogOf st → st.logcounter < 2 ^ 64 → ∀ n < 2 ^ 64,
      VisitsRecords st.logStore KeyTypeE.kLogNode.number n) :=
  ⟨fun _ small _ word => decode_encode small word,
    fun _ small _ small' _ mWord _ nWord => encodePrimaryKey_lt_iff small small' mWord nWord,
    fun _ _ _ small _ word only => visitsRecords small word only,
    fun _ table _ _ represents words _ word =>
      visitsRecords table.primaryKey.number_lt word (onlyRecords_of_represents represents words),
    fun _ log counter _ word => visitsRecords KeyTypeE.kLogNode.number_lt word (onlyRecords_of_log log counter)⟩

/-- A record among the secondary keys of another type. -/
theorem primaryKeys_ordered_example :
    VisitsRecords ((OrderedMap.empty.put (encodePrimaryKey 15 7) ()).put (encodeKeyType 56 ++ ascii "email:a") ())
      15 3 := by
  refine primaryKeys_ordered.2.2.1 Unit _ 15 (by decide) 3 (by decide) ?_
  intro key value has ofType
  rw [OrderedMap.get?_put, OrderedMap.get?_put] at has
  split at has
  · next isSecondary =>
    rw [isSecondary] at ofType
    exact absurd ofType (by decide +kernel)
  · split at has
    · next isRecord => exact ⟨7, by decide, isRecord⟩
    · cases has

end KeyStream

end Identt.Store
