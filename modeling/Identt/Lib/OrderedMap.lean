import Mathlib.Order.Defs.LinearOrder
import Mathlib.Data.List.Pairwise
import Mathlib.Data.List.Infix
import Mathlib.Data.List.Nodup
import Mathlib.Data.List.Lex
import Mathlib.Order.Lattice

/-! # Finite maps with ordered iteration

A map is the strictly increasing list of its bindings, so two maps with the same lookups are equal
and an iterator is a suffix of that list. Every operation is a filter: the order invariant is
inherited from `List.Pairwise`, and lookups reduce to membership.
-/

/-- Bytes compare as unsigned numbers. -/
instance instLinearOrderUInt8 : LinearOrder UInt8 where
  le_refl := UInt8.le_refl
  le_trans _ _ _ := UInt8.le_trans
  lt_iff_le_not_ge a b := by
    rw [UInt8.lt_iff_le_and_ne]
    constructor <;> simp +contextual [UInt8.le_antisymm_iff]
  le_antisymm _ _ := UInt8.le_antisymm
  le_total := UInt8.le_total
  toDecidableLE := inferInstance
  toDecidableLT := inferInstance
  toDecidableEq := inferInstance

/-- A list in strictly increasing order is determined by its members. -/
theorem eq_of_sorted {α κ : Type} [Preorder κ] {f : α → κ} {l l' : List α}
    (sorted : l.Pairwise fun a b => f a < f b) (sorted' : l'.Pairwise fun a b => f a < f b)
    (same : ∀ a, a ∈ l ↔ a ∈ l') : l = l' := by
  have nodup {l : List α} (sorted : l.Pairwise fun a b => f a < f b) : l.Nodup :=
    sorted.imp fun less equal => less.ne (congrArg f equal)
  have permuted : l.Perm l' := (List.perm_ext_iff_of_nodup (nodup sorted) (nodup sorted')).mpr same
  exact permuted.eq_of_pairwise (fun a b _ _ less greater => (less.asymm greater).elim) sorted sorted'

/-- A finite map, kept as its bindings in strictly increasing order of keys. -/
structure OrderedMap (κ ν : Type) [LinearOrder κ] where
  entries : List (κ × ν)
  sorted : entries.Pairwise (fun a b => a.1 < b.1)

namespace OrderedMap

variable {κ ν : Type} [LinearOrder κ]

def empty : OrderedMap κ ν := ⟨[], List.Pairwise.nil⟩

instance : Inhabited (OrderedMap κ ν) := ⟨empty⟩

instance [DecidableEq ν] : DecidableEq (OrderedMap κ ν) := fun a b =>
  decidable_of_iff (a.entries = b.entries) (by cases a; cases b; simp)

def get? (m : OrderedMap κ ν) (k : κ) : Option ν :=
  (m.entries.find? (fun entry => entry.1 = k)).map Prod.snd

/-- Bind `k` to `v`, dropping the old binding of `k`. -/
def put (m : OrderedMap κ ν) (k : κ) (v : ν) : OrderedMap κ ν where
  entries := m.entries.filter (fun entry => entry.1 < k) ++
    (k, v) :: m.entries.filter (fun entry => k < entry.1)
  sorted := by
    refine List.pairwise_append.mpr ⟨m.sorted.filter _, List.pairwise_cons.mpr
      ⟨fun entry member => ?_, m.sorted.filter _⟩, fun low lowMember high highMember => ?_⟩
    · simpa using (List.mem_filter.mp member).2
    · have below : low.1 < k := by simpa using (List.mem_filter.mp lowMember).2
      rcases List.mem_cons.mp highMember with rfl | above
      · exact below
      · exact below.trans (by simpa using (List.mem_filter.mp above).2)

def erase (m : OrderedMap κ ν) (k : κ) : OrderedMap κ ν :=
  ⟨m.entries.filter (fun entry => entry.1 ≠ k), m.sorted.filter _⟩

/-- What an iterator positioned at the first key not below `k` still has to visit. -/
def seek (m : OrderedMap κ ν) (k : κ) : List (κ × ν) :=
  m.entries.filter (fun entry => ¬ entry.1 < k)

/-- The binding an iterator steps back to from the first key not below `k`. -/
def before (m : OrderedMap κ ν) (k : κ) : Option (κ × ν) :=
  (m.entries.filter (fun entry => entry.1 < k)).getLast?

/-- Keys are distinct, so a binding is in the list exactly when it is looked up. -/
theorem get?_eq_some_iff {m : OrderedMap κ ν} {k : κ} {v : ν} :
    m.get? k = some v ↔ (k, v) ∈ m.entries := by
  constructor
  · intro found
    obtain ⟨⟨key, value⟩, find, rfl⟩ := Option.map_eq_some_iff.mp found
    have same : key = k := by simpa using List.find?_some find
    subst same
    exact List.mem_of_find?_eq_some find
  · intro member
    cases find : m.entries.find? (fun entry => decide (entry.1 = k)) with
    | none => simpa using List.find?_eq_none.mp find (k, v) member
    | some entry =>
      have same : entry.1 = k := by simpa using List.find?_some find
      have unique : entry = (k, v) := by
        by_contra distinct
        have distinctKeys : m.entries.Pairwise (fun a b => a.1 ≠ b.1) :=
          m.sorted.imp fun less => less.ne
        have : Std.Symm (fun a b : κ × ν => a.1 ≠ b.1) := ⟨fun _ _ differ => differ.symm⟩
        exact distinctKeys.forall (List.mem_of_find?_eq_some find) member distinct same
      simp [get?, find, unique]

theorem get?_eq_none_iff {m : OrderedMap κ ν} {k : κ} :
    m.get? k = none ↔ ∀ v, (k, v) ∉ m.entries := by
  constructor
  · intro absent v member
    rw [get?_eq_some_iff.mpr member] at absent
    contradiction
  · intro absent
    cases found : m.get? k with
    | none => rfl
    | some v => exact (absent v (get?_eq_some_iff.mp found)).elim

theorem get?_eq_of_mem_iff {m m' : OrderedMap κ ν} {k k' : κ}
    (same : ∀ v, (k, v) ∈ m.entries ↔ (k', v) ∈ m'.entries) : m.get? k = m'.get? k' := by
  apply Option.ext
  intro v
  rw [get?_eq_some_iff, get?_eq_some_iff, same]

@[simp] theorem get?_empty (k : κ) : (empty : OrderedMap κ ν).get? k = none := rfl

@[simp] theorem get?_put_self (m : OrderedMap κ ν) (k : κ) (v : ν) : (m.put k v).get? k = some v :=
  get?_eq_some_iff.mpr (by simp [put])

theorem get?_put_of_ne (m : OrderedMap κ ν) {k k' : κ} (v : ν) (other : k' ≠ k) :
    (m.put k v).get? k' = m.get? k' := by
  apply get?_eq_of_mem_iff
  intro w
  simp only [put, List.mem_append, List.mem_filter, List.mem_cons, Prod.mk.injEq, other,
    false_and, false_or, decide_eq_true_eq]
  constructor
  · rintro (⟨member, _⟩ | ⟨member, _⟩) <;> exact member
  · intro member
    exact (lt_or_gt_of_ne other).imp (⟨member, ·⟩) (⟨member, ·⟩)

theorem get?_put (m : OrderedMap κ ν) (k k' : κ) (v : ν) :
    (m.put k v).get? k' = if k' = k then some v else m.get? k' := by
  split
  · next same => rw [same, get?_put_self]
  · next other => exact get?_put_of_ne m v other

@[simp] theorem get?_erase_self (m : OrderedMap κ ν) (k : κ) : (m.erase k).get? k = none :=
  get?_eq_none_iff.mpr (by simp [erase])

theorem get?_erase_of_ne (m : OrderedMap κ ν) {k k' : κ} (other : k' ≠ k) :
    (m.erase k).get? k' = m.get? k' :=
  get?_eq_of_mem_iff (by simp [erase, other])

theorem get?_erase (m : OrderedMap κ ν) (k k' : κ) :
    (m.erase k).get? k' = if k' = k then none else m.get? k' := by
  split
  · next same => rw [same, get?_erase_self]
  · next other => exact get?_erase_of_ne m other

/-- A map is determined by its lookups. -/
theorem ext_get? {m m' : OrderedMap κ ν} (same : ∀ k, m.get? k = m'.get? k) : m = m' := by
  have members : ∀ entry, entry ∈ m.entries ↔ entry ∈ m'.entries := by
    rintro ⟨k, v⟩
    rw [← get?_eq_some_iff, ← get?_eq_some_iff, same]
  have equal : m.entries = m'.entries := eq_of_sorted m.sorted m'.sorted members
  cases m
  cases m'
  simpa using equal

theorem mem_seek {m : OrderedMap κ ν} {k : κ} {entry : κ × ν} :
    entry ∈ m.seek k ↔ entry ∈ m.entries ∧ ¬ entry.1 < k := by
  simp [seek, List.mem_filter]

theorem seek_sorted (m : OrderedMap κ ν) (k : κ) :
    (m.seek k).Pairwise (fun a b => a.1 < b.1) := m.sorted.filter _

theorem seek_ne_nil {m : OrderedMap κ ν} {k : κ} {entry : κ × ν} (member : entry ∈ m.entries)
    (notBelow : ¬ entry.1 < k) : m.seek k ≠ [] :=
  List.ne_nil_of_mem (mem_seek.mpr ⟨member, notBelow⟩)

/-- Stepping back lands on the largest key below the target. -/
theorem before_eq_some {m : OrderedMap κ ν} {k : κ} {entry : κ × ν}
    (found : m.before k = some entry) :
    entry ∈ m.entries ∧ entry.1 < k ∧ ∀ other ∈ m.entries, other.1 < k → other.1 ≤ entry.1 := by
  obtain ⟨front, split⟩ := List.getLast?_eq_some_iff.mp found
  have member : entry ∈ m.entries.filter (fun entry => entry.1 < k) := by rw [split]; simp
  have ordered := m.sorted.filter (fun entry => decide (entry.1 < k))
  rw [split] at ordered
  refine ⟨(List.mem_filter.mp member).1, by simpa using (List.mem_filter.mp member).2, ?_⟩
  intro other otherMember below
  have inFront : other ∈ front ++ [entry] := by
    rw [← split]
    exact List.mem_filter.mpr ⟨otherMember, by simpa using below⟩
  rcases List.mem_append.mp inFront with earlier | same
  · exact ((List.pairwise_append.mp ordered).2.2 other earlier entry (List.mem_singleton_self _)).le
  · rw [List.mem_singleton.mp same]

theorem before_eq_none {m : OrderedMap κ ν} {k : κ} (missing : m.before k = none) :
    ∀ entry ∈ m.entries, ¬ entry.1 < k := by
  intro entry member below
  have empty := List.getLast?_eq_none_iff.mp missing
  have present : entry ∈ m.entries.filter (fun entry => entry.1 < k) :=
    List.mem_filter.mpr ⟨member, by simpa using below⟩
  rw [empty] at present
  contradiction

end OrderedMap
