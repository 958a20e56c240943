import Mathlib.Data.List.Perm.Basic
import Identt.Lib.PrefixScan
import Identt.Store.LastId
import Identt.Store.Represents

/-! # Scans of a table

A scan by primary keys visits the records of a table in the order of their identifiers, from a first one
on, and stops when it has handed out as many as it was allowed to.
-/

namespace Identt.Store.StoreTable

variable {T : Type} {table : StoreTable T} {db : DB} {records : ℕ → Option T}

variable (table) in
/-- The stored records from an identifier on, in the order of their identifiers. -/
structure Listed (records : ℕ → Option T) (first : ℕ) (listed : List T) : Prop where
  ordered : listed.Pairwise fun a b => table.id a < table.id b
  mem_iff : ∀ record, record ∈ listed ↔ records (table.id record) = some record ∧ first ≤ table.id record

/-- There is one such list. -/
theorem Listed.unique {first : ℕ} {listed listed' : List T} (left : table.Listed records first listed)
    (right : table.Listed records first listed') : listed = listed' :=
  eq_of_sorted left.ordered right.ordered fun record => (left.mem_iff record).trans (right.mem_iff record).symm

/-- What is left of the list behind an identifier. -/
theorem Listed.filter {first later : ℕ} {listed : List T} (here : table.Listed records first listed)
    (after : first ≤ later) : table.Listed records later (listed.filter fun record => later ≤ table.id record) := by
  refine ⟨here.ordered.filter _, fun record => ?_⟩
  rw [List.mem_filter, here.mem_iff, decide_eq_true_eq]
  constructor
  · rintro ⟨⟨stored, _⟩, bound⟩
    exact ⟨stored, bound⟩
  · rintro ⟨stored, bound⟩
    exact ⟨⟨stored, after.trans bound⟩, bound⟩

/-- The loop of the scan hands the records over in order until it meets the limit; it never meets zero. -/
theorem scanRecords_eq {σ : Type} {limit : ℕ} {func : σ → T → σ} {entries : List (Bytes × Stored)} {listed : List T}
    (parsed : entries.map (fun entry => table.parseStored entry.2) = listed.map some) {counter : ℕ}
    (below : limit = 0 ∨ counter < limit) (state : σ) :
    table.scanRecords limit func counter state entries =
      .ok ((if limit = 0 then listed else listed.take (limit - counter)).foldl func state) := by
  induction entries generalizing listed counter state with
  | nil =>
    obtain rfl : listed = [] := by simpa using parsed.symm
    simp [scanRecords]
  | cons entry rest ih =>
    cases listed with
    | nil => contradiction
    | cons record later =>
      obtain ⟨key, value⟩ := entry
      obtain ⟨head, tail⟩ := List.cons_eq_cons.mp parsed
      simp only [scanRecords, head]
      by_cases last : counter + 1 = limit
      · have one : limit - counter = 1 := by omega
        rw [if_pos last, if_neg (by omega), one]
        rfl
      · rw [if_neg last, ih tail (by omega)]
        split
        · rfl
        · obtain ⟨more, here⟩ : ∃ more, limit - counter = more + 1 := ⟨limit - counter - 1, by omega⟩
          rw [here, List.take_succ_cons, List.foldl_cons, show limit - (counter + 1) = more by omega]

/-- What the scan visits. -/
theorem mem_scanned (represents : table.Represents db records) (word : ∀ n record, records n = some record → n < 2 ^ 64)
    {first : ℕ} (positive : first ≠ 0) (small : first < 2 ^ 64) {entry : Bytes × Stored} :
    entry ∈ (db.seek (encodePrimaryKey table.primaryKey first)).takeWhile
        (fun entry => (encodeKeyType table.primaryKey).isPrefixOf entry.1) ↔
      ∃ n record, records n = some record ∧ first ≤ n ∧
        entry = (encodePrimaryKey table.primaryKey n, .data (table.serialize record)) := by
  rw [OrderedMap.mem_seek_takeWhile (hasType_encodePrimaryKey table.primaryKey first)]
  obtain ⟨key, value⟩ := entry
  constructor
  · rintro ⟨has, notBelow, ofTable⟩
    obtain ⟨n, rfl⟩ := represents.primary_only key value ofTable has
    by_cases zero : n = 0
    · subst zero
      exact (notBelow ((encodePrimaryKey_lt_iff _ (by omega) small).mpr (by omega))).elim
    · rw [represents.primary n zero] at has
      obtain ⟨record, stored, rfl⟩ := Option.map_eq_some_iff.mp has
      rw [encodePrimaryKey_lt_iff _ (word n record stored) small] at notBelow
      exact ⟨n, record, stored, not_lt.mp notBelow, rfl⟩
  · rintro ⟨n, record, stored, bound, same⟩
    cases same
    refine ⟨?_, ?_, hasType_encodePrimaryKey ..⟩
    · rw [represents.primary n (represents.ne_zero stored), stored]
      rfl
    · rw [encodePrimaryKey_lt_iff _ (word n record stored) small]
      omega

/-- A scan hands the records over in order, at most so many as the limit says; zero is no limit. -/
theorem scanTable_eq (represents : table.Represents db records) (word : ∀ n record, records n = some record → n < 2 ^ 64)
    {startid : ℕ} (small : startid < 2 ^ 64) :
    ∃ listed, table.Listed records startid listed ∧ ∀ {σ : Type} (limit : ℕ) (func : σ → T → σ) (state : σ),
      table.scanTable db startid limit func state =
        .ok ((if limit = 0 then listed else listed.take limit).foldl func state) := by
  obtain ⟨first, isFirst⟩ : ∃ first, first = if 0 < startid then startid else 1 := ⟨_, rfl⟩
  have positive : first ≠ 0 := by
    rw [isFirst]
    split <;> omega
  have visited := @mem_scanned _ _ _ _ represents word first positive (by rw [isFirst]; split <;> omega)
  have sorted : ((db.seek (encodePrimaryKey table.primaryKey first)).takeWhile
      fun entry => (encodeKeyType table.primaryKey).isPrefixOf entry.1).Pairwise fun a b => a.1 < b.1 :=
    (db.seek_sorted _).sublist (List.takeWhile_sublist _)
  have scans {σ : Type} (limit : ℕ) (func : σ → T → σ) (state : σ) : table.scanTable db startid limit func state =
      table.scanRecords limit func 0 state ((db.seek (encodePrimaryKey table.primaryKey first)).takeWhile
        fun entry => (encodeKeyType table.primaryKey).isPrefixOf entry.1) := by
    rw [scanTable, isFirst]
  generalize (db.seek (encodePrimaryKey table.primaryKey first)).takeWhile
    (fun entry => (encodeKeyType table.primaryKey).isPrefixOf entry.1) = entries at visited sorted scans
  have parses : ∀ entry ∈ entries, ∃ n record, records n = some record ∧ first ≤ n ∧
      entry.1 = encodePrimaryKey table.primaryKey n ∧ table.parseStored entry.2 = some record := by
    intro entry member
    obtain ⟨n, record, stored, bound, rfl⟩ := visited.mp member
    exact ⟨n, record, stored, bound, rfl, parseStored_serialize record⟩
  have parsed := @map_eq_map_some _ _ (fun entry : Bytes × Stored => table.parseStored entry.2) entries
    fun entry member => by
      obtain ⟨_, _, _, _, _, found⟩ := parses entry member
      exact found ▸ rfl
  refine ⟨entries.filterMap fun entry => table.parseStored entry.2, ⟨?_, fun record => ?_⟩, fun limit func state => ?_⟩
  · refine List.Pairwise.filterMap _ (fun _ _ less => less) (sorted.imp_of_mem fun {a b} inA inB less => ?_)
    intro left foundLeft right foundRight
    obtain ⟨m, left', hasLeft, _, keyLeft, parsedLeft⟩ := parses a inA
    obtain ⟨n, right', hasRight, _, keyRight, parsedRight⟩ := parses b inB
    obtain rfl := Option.some.inj (parsedLeft.symm.trans foundLeft)
    obtain rfl := Option.some.inj (parsedRight.symm.trans foundRight)
    rw [keyLeft, keyRight, encodePrimaryKey_lt_iff _ (word m _ hasLeft) (word n _ hasRight)] at less
    rwa [represents.id_eq m _ hasLeft, represents.id_eq n _ hasRight]
  · rw [List.mem_filterMap]
    constructor
    · rintro ⟨entry, member, found⟩
      obtain ⟨n, other, stored, bound, _, found'⟩ := parses entry member
      obtain rfl := Option.some.inj (found'.symm.trans found)
      rw [represents.id_eq n other stored]
      refine ⟨stored, ?_⟩
      rw [isFirst] at bound
      split at bound <;> omega
    · rintro ⟨stored, bound⟩
      refine ⟨_, visited.mpr ⟨table.id record, record, stored, ?_, rfl⟩, parseStored_serialize record⟩
      have number := represents.ne_zero stored
      rw [isFirst]
      split <;> omega
  · rw [scans, scanRecords_eq parsed (by omega), Nat.sub_zero]

end Identt.Store.StoreTable
