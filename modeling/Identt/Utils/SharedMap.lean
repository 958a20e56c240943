import Identt.Lib.OrderedMap
import Mathlib.Data.List.Nodup

/-! # Maps shared between threads (`SharedMap`, `SharedPairMap`)

A hash map behind a lock, given by its entries in iteration order. Where a new key goes in that order
is up to the hash table, so nothing should depend on it. The two classes differ in the pair that the
values of the second one are.
-/

namespace Identt.SharedMap

variable {K V : Type}

abbrev MapT (K V : Type) := List (K × V)

/-- `t_[key]=value`. -/
def addOne [DecidableEq K] (map : MapT K V) (key : K) (value : V) : MapT K V :=
  if key ∈ map.map Prod.fst then map.map fun entry => if entry.1 = key then (key, value) else entry
  else map ++ [(key, value)]

/-- Add all entries of another map. -/
def addMany [DecidableEq K] (map other : MapT K V) : MapT K V :=
  other.foldl (fun map entry => addOne map entry.1 entry.2) map

/-- `Swap` gets the other map by value: what is in the shared map afterwards. The caller's map stays as
it is, and what the shared map held goes into the copy and with it. -/
def swap (_map other : MapT K V) : MapT K V := other

section Lookup

variable [DecidableEq K] [BEq K] [LawfulBEq K]

theorem lookup_map_update (map : MapT K V) (key : K) (value : V) (present : key ∈ map.map Prod.fst) (key' : K) :
    (map.map fun entry => if entry.1 = key then (key, value) else entry).lookup key' =
      if key' = key then some value else map.lookup key' := by
  induction map with
  | nil => contradiction
  | cons entry rest ih =>
    obtain ⟨name, old⟩ := entry
    rw [List.map_cons]
    by_cases here : name = key
    · subst here
      by_cases same : key' = name
      · simp [same]
      · simp only [if_true, List.lookup_cons, beq_eq_false_iff_ne.mpr same, same, if_false]
        by_cases later : name ∈ rest.map Prod.fst
        · rw [ih later, if_neg same]
        · congr 1
          refine (List.map_congr_left fun entry member => ?_).trans (List.map_id rest)
          exact if_neg fun isKey : entry.1 = name => later (isKey ▸ List.mem_map_of_mem member)
    · have later : key ∈ rest.map Prod.fst := (List.mem_cons.mp present).resolve_left fun isKey => here isKey.symm
      simp only [here, if_false, List.lookup_cons]
      by_cases same : key' = name
      · simp [same, here]
      · rw [beq_eq_false_iff_ne.mpr same]
        exact ih later

theorem lookup_addOne (map : MapT K V) (key : K) (value : V) (key' : K) :
    (addOne map key value).lookup key' = if key' = key then some value else map.lookup key' := by
  rw [addOne]
  split
  · next present => exact lookup_map_update map key value present key'
  · next absent =>
    rw [List.lookup_append]
    by_cases same : key' = key
    · subst same
      have missing : map.lookup key' = none := by
        rw [List.lookup_eq_none_iff]
        intro entry member
        rw [bne_iff_ne]
        exact fun isKey => absent (isKey ▸ List.mem_map_of_mem member)
      simp [missing]
    · simp [List.lookup_cons, beq_eq_false_iff_ne.mpr same, same]

/-- The last entry for a key is the one that stays. -/
theorem lookup_addMany (map other : MapT K V) (key : K) :
    (addMany map other).lookup key = (other.reverse.lookup key).or (map.lookup key) := by
  induction other using List.reverseRecOn with
  | nil => rfl
  | append_singleton other entry ih =>
    rw [addMany, List.foldl_append, List.foldl_cons, List.foldl_nil, lookup_addOne]
    rw [addMany] at ih
    rw [ih, List.reverse_append, List.reverse_singleton, List.singleton_append, List.lookup_cons]
    by_cases same : key = entry.1
    · simp [same]
    · simp [beq_eq_false_iff_ne.mpr same, same]

end Lookup

theorem addOne_keys [DecidableEq K] (map : MapT K V) (key : K) (value : V) :
    (addOne map key value).map Prod.fst =
      if key ∈ map.map Prod.fst then map.map Prod.fst else map.map Prod.fst ++ [key] := by
  rw [addOne]
  split
  · rw [List.map_map]
    refine List.map_congr_left fun entry _ => ?_
    rw [Function.comp_apply]
    split <;> simp [*]
  · rw [List.map_append, List.map_singleton]

theorem addOne_nodup [DecidableEq K] {map : MapT K V} (nodup : (map.map Prod.fst).Nodup) (key : K) (value : V) :
    ((addOne map key value).map Prod.fst).Nodup := by
  rw [addOne_keys]
  split
  · exact nodup
  · next absent =>
    rw [← List.concat_eq_append]
    exact nodup.concat absent

theorem addMany_nodup [DecidableEq K] {map : MapT K V} (nodup : (map.map Prod.fst).Nodup) (other : MapT K V) :
    ((addMany map other).map Prod.fst).Nodup := by
  rw [addMany]
  induction other generalizing map with
  | nil => exact nodup
  | cons entry rest ih => exact ih (addOne_nodup nodup entry.1 entry.2)

theorem mem_addOne [DecidableEq K] {map : MapT K V} {key : K} {value : V} {entry : K × V}
    (member : entry ∈ addOne map key value) : entry ∈ map ∨ entry = (key, value) := by
  rw [addOne] at member
  split at member
  · obtain ⟨old, inMap, rfl⟩ := List.mem_map.mp member
    split
    · exact .inr rfl
    · exact .inl inMap
  · exact (List.mem_append.mp member).imp id List.mem_singleton.mp

theorem mem_addMany [DecidableEq K] {map other : MapT K V} {entry : K × V} (member : entry ∈ addMany map other) :
    entry ∈ map ∨ entry ∈ other := by
  rw [addMany] at member
  induction other generalizing map with
  | nil => exact .inl member
  | cons first rest ih =>
    rcases ih member with earlier | later
    · refine (mem_addOne earlier).imp id fun isFirst => ?_
      rw [isFirst]
      exact List.mem_cons_self ..
    · exact .inr (List.mem_cons_of_mem _ later)

theorem lookup_of_mem [BEq K] [LawfulBEq K] {map : MapT K V} (nodup : (map.map Prod.fst).Nodup) {key : K} {value : V}
    (member : (key, value) ∈ map) : map.lookup key = some value := by
  induction map with
  | nil => contradiction
  | cons entry rest ih =>
    rw [List.map_cons, List.nodup_cons] at nodup
    rcases List.mem_cons.mp member with rfl | later
    · simp
    · have other : key ≠ entry.1 := fun same => nodup.1 (same ▸ List.mem_map_of_mem later)
      rw [List.lookup_cons, beq_eq_false_iff_ne.mpr other]
      exact ih nodup.2 later

theorem mem_of_lookup [BEq K] [LawfulBEq K] {map : MapT K V} {key : K} {value : V} (found : map.lookup key = some value) :
    (key, value) ∈ map := by
  obtain ⟨before, after, rfl, _⟩ := List.lookup_eq_some_iff.mp found
  simp

/-- A map's iteration order does not matter for what it holds. -/
theorem lookup_reverse [BEq K] [LawfulBEq K] {map : MapT K V} (nodup : (map.map Prod.fst).Nodup) (key : K) :
    map.reverse.lookup key = map.lookup key := by
  cases found : map.lookup key with
  | some value =>
    refine lookup_of_mem ?_ (List.mem_reverse.mpr (mem_of_lookup found))
    rwa [List.map_reverse, List.nodup_reverse]
  | none =>
    rw [List.lookup_eq_none_iff] at found ⊢
    exact fun entry member => found entry (List.mem_reverse.mp member)

end Identt.SharedMap
