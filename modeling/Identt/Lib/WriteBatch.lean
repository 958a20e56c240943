import Identt.Lib.OrderedMap

/-! # Write batches over an ordered map

A batch is a list of puts and deletions applied in order. Its whole effect on a key is that of the
last operation on the key, and none if no operation names it.
-/

inductive BatchOp (κ ν : Type) where
  | put (key : κ) (value : ν)
  | delete (key : κ)

namespace BatchOp

variable {κ ν : Type}

def key : BatchOp κ ν → κ
  | .put k _ => k
  | .delete k => k

/-- What the key is bound to once the operation is applied. -/
def result : BatchOp κ ν → Option ν
  | .put _ v => some v
  | .delete _ => none

/-- The last operation of a batch on a key. -/
def last? [DecidableEq κ] (batch : List (BatchOp κ ν)) (k : κ) : Option (BatchOp κ ν) :=
  batch.reverse.find? (fun op => op.key = k)

theorem last?_eq_none_iff [DecidableEq κ] {batch : List (BatchOp κ ν)} {k : κ} :
    last? batch k = none ↔ ∀ op ∈ batch, op.key ≠ k := by
  simp [last?, List.find?_eq_none]

theorem last?_key [DecidableEq κ] {batch : List (BatchOp κ ν)} {k : κ} {op : BatchOp κ ν}
    (found : last? batch k = some op) : op.key = k := by
  simpa using List.find?_some found

theorem last?_mem [DecidableEq κ] {batch : List (BatchOp κ ν)} {k : κ} {op : BatchOp κ ν}
    (found : last? batch k = some op) : op ∈ batch :=
  List.mem_reverse.mp (List.mem_of_find?_eq_some found)

theorem last?_append [DecidableEq κ] (first second : List (BatchOp κ ν)) (k : κ) :
    last? (first ++ second) k = (last? second k).or (last? first k) := by
  simp [last?, List.find?_append]

end BatchOp

namespace OrderedMap

variable {κ ν : Type} [LinearOrder κ]

def apply (m : OrderedMap κ ν) : BatchOp κ ν → OrderedMap κ ν
  | .put k v => m.put k v
  | .delete k => m.erase k

/-- Apply the operations of a batch in order. -/
def write (m : OrderedMap κ ν) (batch : List (BatchOp κ ν)) : OrderedMap κ ν :=
  batch.foldl apply m

theorem get?_apply (m : OrderedMap κ ν) (op : BatchOp κ ν) (k : κ) :
    (m.apply op).get? k = if k = op.key then op.result else m.get? k := by
  cases op with
  | put key value => exact get?_put m key k value
  | delete key => exact get?_erase m key k

@[simp] theorem write_nil (m : OrderedMap κ ν) : m.write [] = m := rfl

@[simp] theorem write_cons (m : OrderedMap κ ν) (op : BatchOp κ ν) (batch : List (BatchOp κ ν)) :
    m.write (op :: batch) = (m.apply op).write batch := rfl

theorem write_append (m : OrderedMap κ ν) (first second : List (BatchOp κ ν)) :
    m.write (first ++ second) = (m.write first).write second := List.foldl_append

/-- The last operation on a key decides its binding. -/
theorem get?_write (m : OrderedMap κ ν) (batch : List (BatchOp κ ν)) (k : κ) :
    (m.write batch).get? k = ((BatchOp.last? batch k).map BatchOp.result).getD (m.get? k) := by
  induction batch using List.reverseRecOn with
  | nil => rfl
  | append_singleton batch op ih =>
    rw [write_append, write_cons, write_nil, get?_apply, BatchOp.last?_append, ih]
    by_cases same : k = op.key
    · simp [BatchOp.last?, same]
    · simp [BatchOp.last?, same, Ne.symm same]

theorem get?_write_of_untouched {m : OrderedMap κ ν} {batch : List (BatchOp κ ν)} {k : κ}
    (untouched : ∀ op ∈ batch, op.key ≠ k) : (m.write batch).get? k = m.get? k := by
  rw [get?_write, BatchOp.last?_eq_none_iff.mpr untouched]
  rfl

/-- What a batch leaves under a key it touches does not depend on the map. -/
theorem get?_write_of_touched {batch : List (BatchOp κ ν)} {k : κ} (touched : ∃ op ∈ batch, op.key = k)
    (m m' : OrderedMap κ ν) : (m.write batch).get? k = (m'.write batch).get? k := by
  rw [get?_write, get?_write]
  cases last : BatchOp.last? batch k with
  | none =>
    obtain ⟨op, member, here⟩ := touched
    exact (BatchOp.last?_eq_none_iff.mp last op member here).elim
  | some op => rfl

/-- A key on which all operations of a batch agree. -/
theorem get?_write_of_agree {m : OrderedMap κ ν} {batch : List (BatchOp κ ν)} {k : κ} {result : Option ν}
    (touched : ∃ op ∈ batch, op.key = k) (agree : ∀ op ∈ batch, op.key = k → op.result = result) :
    (m.write batch).get? k = result := by
  rw [get?_write]
  cases last : BatchOp.last? batch k with
  | none =>
    obtain ⟨op, member, here⟩ := touched
    exact (BatchOp.last?_eq_none_iff.mp last op member here).elim
  | some op => exact agree op (BatchOp.last?_mem last) (BatchOp.last?_key last)

/-- Batches act on each key alone, so maps that agree on a key still agree on it afterwards. -/
theorem get?_write_congr {m m' : OrderedMap κ ν} {k : κ} (same : m.get? k = m'.get? k)
    (batch : List (BatchOp κ ν)) : (m.write batch).get? k = (m'.write batch).get? k := by
  rw [get?_write, get?_write, same]

end OrderedMap
