import Mathlib.Data.List.Infix

/-! # Splitting at a separator

A list split at a separator is the list of its pieces, none of which contains the separator, and joining them gives
the list back.
-/

namespace Identt.Split

variable {α : Type} [BEq α] [LawfulBEq α]

/-- No piece of a split text contains the separator. -/
theorem notMem_of_mem_splitOn {a : α} {text piece : List α}
    (member : piece ∈ text.splitOn a) : a ∉ piece := by
  induction text generalizing piece with
  | nil =>
    rw [List.splitOn_nil, List.mem_singleton] at member
    rw [member]
    exact List.not_mem_nil
  | cons c rest ih =>
    rw [List.splitOn_cons_eq_if_modifyHead] at member
    split at member
    · rcases List.mem_cons.mp member with rfl | later
      · exact List.not_mem_nil
      · exact ih later
    · next other =>
      cases pieces : rest.splitOn a with
      | nil => exact (List.splitOn_ne_nil a rest pieces).elim
      | cons first others =>
        rw [pieces, List.modifyHead_cons] at member
        rcases List.mem_cons.mp member with rfl | later
        · rw [List.mem_cons, not_or]
          exact ⟨fun same => other (beq_iff_eq.mpr same.symm), ih (pieces ▸ List.mem_cons_self ..)⟩
        · exact ih (pieces ▸ List.mem_cons_of_mem _ later)

end Identt.Split
