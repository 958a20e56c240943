import Identt.Lib.PrefixScan
import Identt.Store.StoreLevel

/-! # Reading the last identifier of a key type

`Initialize` steps back from the first key of the next type. If the keys of a type are primary keys of
identifiers that fit a machine word, and the fences are there, that step lands on the type's largest
identifier.
-/

namespace Identt

open Store

theorem stoull_hex {width n : ℕ} (fits : n < 16 ^ width) (positive : 0 < width) (word : n < 2 ^ 64) :
    stoull 16 (hex width n) = .ok n := by
  have digits : ∀ c ∈ hex width n, ∃ digit < 16, c = digitChar digit := by
    intro c member
    obtain ⟨digit, inNumeral, rfl⟩ := List.mem_map.mp member
    exact ⟨digit, Radix.digit_lt (by omega) inNumeral, rfl⟩
  have plain (c : UInt8) (member : c ∈ hex width n) :
      isSpace c = false ∧ c ≠ 45 ∧ c ≠ 43 ∧ c ≠ 120 ∧ c ≠ 88 := by
    obtain ⟨digit, small, rfl⟩ := digits c member
    interval_cases digit <;> decide
  cases text : hex width n with
  | nil =>
    have length := hex_length fits
    rw [text] at length
    simp only [List.length_nil] at length
    omega
  | cons c rest =>
    obtain ⟨noSpace, notMinus, notPlus, _, _⟩ := plain c (by simp [text])
    have kept : (c :: rest).dropWhile isSpace = c :: rest := by simp [noSpace]
    have noMark : skipMark 16 (c :: rest) = c :: rest := by
      unfold skipMark
      split
      · next x c' rest' same =>
        have second := plain x (by rw [text, same]; simp)
        rw [if_neg (by simp [second.2.2.2.1, second.2.2.2.2])]
      · rfl
    have read : leadingDigits 16 (c :: rest) = Radix.numeral 16 width n := by
      rw [← text, hex, leadingDigits_map le_rfl fun _ => Radix.digit_lt (by omega)]
    have nonempty : Radix.numeral 16 width n ≠ [] := by
      intro empty
      have length := Radix.numeral_length_ge 16 width n
      rw [empty, List.length_nil] at length
      omega
    simp only [stoull, stoa, kept, List.head?_cons, Option.some.injEq, notMinus, notPlus, or_self, if_false,
      noMark, read, nonempty, Radix.value_numeral]
    rw [if_neg (not_le.mpr word)]

theorem decodePrimaryKey_hex {number id : ℕ} (small : number < 16 ^ keyIdLen) (word : id < 2 ^ 64) :
    decodePrimaryKey (hex keyIdLen number ++ hex nodeLen id) = .ok (number, id) := by
  have fits : id < 16 ^ nodeLen := by simpa [nodeLen] using word
  have typeLength : (hex keyIdLen number).length = keyIdLen := hex_length small
  have idLength : (hex nodeLen id).length = nodeLen := hex_length fits
  have length : (hex keyIdLen number ++ hex nodeLen id).length = keyIdLen + nodeLen := by
    rw [List.length_append, typeLength, idLength]
  have front : (hex keyIdLen number ++ hex nodeLen id).take keyIdLen = hex keyIdLen number := List.take_left' typeLength
  have back : ((hex keyIdLen number ++ hex nodeLen id).drop keyIdLen).take nodeLen = hex nodeLen id := by
    rw [List.drop_left' typeLength, List.take_of_length_le (by omega)]
  have smallWord : number < 2 ^ 64 := small.trans (by decide)
  rw [decodePrimaryKey, if_neg (by omega), front, back,
    stoull_hex small (by decide) smallWord, stoull_hex fits (by decide) word]
  rfl

theorem decodePrimaryKey_encode (keytype : KeyTypeE) {id : ℕ} (word : id < 2 ^ 64) :
    decodePrimaryKey (encodePrimaryKey keytype id) = .ok (keytype.number, id) :=
  decodePrimaryKey_hex keytype.number_lt word

/-- A hexadecimal number of the width that it was given fits that width. -/
theorem lt_of_hex_length {width n : ℕ} (length : (hex width n).length = width) : n < 16 ^ width := by
  have digits : (Radix.numeral 16 width n).length = width := by rwa [hex, List.length_map] at length
  have small : ∀ digit ∈ Radix.numeral 16 width n, digit < 16 := fun digit => Radix.digit_lt (by omega)
  have bound := Radix.value_lt small
  rwa [Radix.value_numeral, digits] at bound

/-- Every primary key can be decoded, as far as the cache tries to. -/
theorem cachable_primary (keytype : KeyTypeE) (id : ℕ) (value : Value) (toDel : Bool) :
    StoreCache.Cachable [⟨encodePrimaryKey keytype id, value, toDel⟩] := by
  intro item member length
  obtain rfl := List.mem_singleton.mp member
  have width : (hex nodeLen id).length = nodeLen := by
    rw [encodePrimaryKey, List.length_append, encodeKeyType_length] at length
    simp only [keyIdLen] at length
    omega
  have word : id < 2 ^ 64 := by simpa [nodeLen] using lt_of_hex_length width
  rw [decodePrimaryKey_encode keytype word]
  rfl

theorem encodePrimaryKey_lt_iff (keytype : KeyTypeE) {m n : ℕ} (mWord : m < 2 ^ 64) (nWord : n < 2 ^ 64) :
    encodePrimaryKey keytype m < encodePrimaryKey keytype n ↔ m < n := by
  rw [encodePrimaryKey, encodePrimaryKey, append_lt_append_iff,
    hex_lt_iff (by simpa [nodeLen] using mWord) (by simpa [nodeLen] using nWord)]

theorem encodeKeyType_lt_iff {left right : KeyTypeE} :
    encodeKeyType left < encodeKeyType right ↔ left.number < right.number :=
  hex_lt_iff left.number_lt right.number_lt

/-- Keys of a lower type come first. -/
theorem HasType.lt {left right : KeyTypeE} {key key' : Bytes} (hasLeft : HasType left key)
    (hasRight : HasType right key') (lower : left.number < right.number) : key < key' := by
  obtain ⟨rest, rfl⟩ := hasLeft
  obtain ⟨rest', rfl⟩ := hasRight
  exact append_lt_append_of_lt (by simp) (encodeKeyType_lt_iff.mpr lower) _ _

theorem HasType.encodeKeyType_le {keytype : KeyTypeE} {key : Bytes} (hasType : HasType keytype key) :
    encodeKeyType keytype ≤ key := by
  obtain ⟨rest, rfl⟩ := hasType
  exact le_append _ _

namespace StoreLevel

/-- A fence only fills a gap. -/
theorem get?_putFence (db : DB) (keytype : KeyTypeE) (key : Bytes) :
    (putFence db keytype).get? key =
      (db.get? key).or (if key = encodePrimaryKey keytype 0 then some (.data .empty) else none) := by
  unfold putFence
  split
  · next value has =>
    split
    · next here => rw [here, has, Option.some_or]
    · rw [Option.or_none]
  · next absent =>
    rw [OrderedMap.get?_put]
    by_cases here : key = encodePrimaryKey keytype 0
    · simp [here, absent]
    · simp [here]

theorem get?_putFences (db : DB) (key : Bytes) : (putFences db).get? key =
    (db.get? key).or
      (if ∃ keytype ∈ fenceTypes, key = encodePrimaryKey keytype 0 then some (.data .empty) else none) := by
  have fold (keytypes : List KeyTypeE) : (keytypes.foldl putFence db).get? key = (db.get? key).or
      (if ∃ keytype ∈ keytypes, key = encodePrimaryKey keytype 0 then some (.data .empty) else none) := by
    induction keytypes using List.reverseRecOn with
    | nil => simp
    | append_singleton keytypes keytype ih =>
      rw [List.foldl_append, List.foldl_cons, List.foldl_nil, get?_putFence, ih, Option.or_assoc]
      congr 1
      by_cases earlier : ∃ keytype ∈ keytypes, key = encodePrimaryKey keytype 0
      · have either : ∃ other ∈ keytypes ++ [keytype], key = encodePrimaryKey other 0 := by
          obtain ⟨other, member, here⟩ := earlier
          exact ⟨other, List.mem_append_left _ member, here⟩
        rw [if_pos earlier, if_pos either, Option.some_or]
      · rw [if_neg earlier, Option.none_or]
        apply if_congr _ rfl rfl
        constructor
        · exact fun last => ⟨keytype, by simp, last⟩
        · rintro ⟨other, member, here⟩
          rcases List.mem_append.mp member with inFront | isLast
          · exact (earlier ⟨other, inFront, here⟩).elim
          · obtain rfl := List.mem_singleton.mp isLast
            exact here
  unfold putFences
  exact fold fenceTypes

/-- What is no fence of its key type stays as it is. -/
theorem get?_putFences_of_ne (db : DB) {keytype : KeyTypeE} {key : Bytes} (ofType : HasType keytype key)
    (noFence : key ≠ encodePrimaryKey keytype 0) : (putFences db).get? key = db.get? key := by
  rw [get?_putFences, if_neg, Option.or_none]
  rintro ⟨other, _, here⟩
  have sameType := ofType.unique (here ▸ hasType_encodePrimaryKey other 0)
  subst sameType
  exact noFence here

theorem get?_putFences_primary (db : DB) (keytype : KeyTypeE) {n : ℕ} (positive : n ≠ 0) :
    (putFences db).get? (encodePrimaryKey keytype n) = db.get? (encodePrimaryKey keytype n) :=
  get?_putFences_of_ne db (hasType_encodePrimaryKey keytype n) fun fence => positive (encodePrimaryKey_inj.mp fence)

theorem putFences_fence (db : DB) {keytype : KeyTypeE} (member : keytype ∈ fenceTypes) :
    ((putFences db).get? (encodePrimaryKey keytype 0)).isSome := by
  rw [get?_putFences, if_pos ⟨keytype, member, rfl⟩]
  cases db.get? (encodePrimaryKey keytype 0) <;> rfl

/-- Stepping back from the next type reads the largest identifier of a type. -/
theorem lastId_eq {db : DB} {next last : KeyTypeE} (lower : last.number < next.number)
    (between : ∀ key value, db.get? key = some value → ¬ key < encodePrimaryKey last 0 →
      key < encodeKeyType next → HasType last key)
    (own : ∀ key value, db.get? key = some value → HasType last key →
      ∃ n < 2 ^ 64, key = encodePrimaryKey last n)
    (fence : (db.get? (encodePrimaryKey last 0)).isSome) (nextFence : (db.get? (encodePrimaryKey next 0)).isSome)
    (fixedMissing zeroMissing : String) :
    ∃ n, lastId db next last fixedMissing zeroMissing = .ok (some n) ∧
      (db.get? (encodePrimaryKey last n)).isSome ∧
      ∀ m, m < 2 ^ 64 → (db.get? (encodePrimaryKey last m)).isSome → m ≤ n := by
  have belowNext (n : ℕ) : encodePrimaryKey last n < encodeKeyType next := by
    have less := append_lt_append_of_lt (by simp) (encodeKeyType_lt_iff.mpr lower) (hex nodeLen n) []
    simpa [encodePrimaryKey] using less
  obtain ⟨nextValue, hasNext⟩ := Option.isSome_iff_exists.mp nextFence
  obtain ⟨fenceValue, hasFence⟩ := Option.isSome_iff_exists.mp fence
  have seek : db.seek (encodeKeyType next) ≠ [] :=
    OrderedMap.seek_ne_nil (OrderedMap.get?_eq_some_iff.mp hasNext)
      (not_lt.mpr (HasType.encodeKeyType_le (hasType_encodePrimaryKey next 0)))
  cases found : db.before (encodeKeyType next) with
  | none =>
    have none := OrderedMap.before_eq_none found _ (OrderedMap.get?_eq_some_iff.mp hasFence)
    exact (none (belowNext 0)).elim
  | some entry =>
    obtain ⟨key, value⟩ := entry
    obtain ⟨member, below, greatest⟩ := OrderedMap.before_eq_some found
    have has : db.get? key = some value := OrderedMap.get?_eq_some_iff.mpr member
    have aboveFence := greatest _ (OrderedMap.get?_eq_some_iff.mp hasFence) (belowNext 0)
    have ofLast := between key value has (not_lt.mpr aboveFence) below
    obtain ⟨n, word, rfl⟩ := own key value has ofLast
    refine ⟨n, ?_, by simp [has], ?_⟩
    · rw [lastId]
      split
      · next empty => exact (seek empty).elim
      · simp only [found, if_pos ofLast, decodePrimaryKey_encode last word]
        rfl
    · intro m mWord hasM
      obtain ⟨other, hasOther⟩ := Option.isSome_iff_exists.mp hasM
      have le := greatest _ (OrderedMap.get?_eq_some_iff.mp hasOther) (belowNext m)
      by_contra greater
      exact absurd ((encodePrimaryKey_lt_iff last word mWord).mpr (by omega)) (not_lt.mpr le)

end StoreLevel

end Identt
