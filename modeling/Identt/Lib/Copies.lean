import Mathlib.Order.Basic

/-! # Copies that agree

Holders hold entries under keys. They agree as long as entries are only copied from one holder to
another, forgotten, or added under a key that nobody has anything else under. Holders of the entries
from a common first key on, without a gap, then hold one beginning after the other.
-/

namespace Copies

variable {ι κ α : Type*}

/-- No two holders have different entries under one key. -/
def Consistent (holds : ι → κ → α → Prop) : Prop := ∀ i j key a b, holds i key a → holds j key b → a = b

section Step

variable {holds holds' : ι → κ → α → Prop}

/-- Copying and forgetting keep holders consistent. -/
theorem Consistent.of_held (consistent : Consistent holds)
    (held : ∀ i key a, holds' i key a → ∃ j, holds j key a) : Consistent holds' := by
  intro i j key a b holdsA holdsB
  obtain ⟨i', heldA⟩ := held i key a holdsA
  obtain ⟨j', heldB⟩ := held j key b holdsB
  exact consistent i' j' key a b heldA heldB

/-- A new entry keeps holders consistent exactly if nobody had another one under its key. -/
theorem Consistent.add_iff (consistent : Consistent holds) {i : ι} {key : κ} {a : α} (new : holds' i key a)
    (kept : ∀ j b, holds j key b → ∃ k, holds' k key b)
    (held : ∀ j key' b, holds' j key' b → (key' = key ∧ b = a) ∨ ∃ k, holds k key' b) :
    Consistent holds' ↔ ∀ j b, holds j key b → b = a := by
  constructor
  · intro still j b before
    obtain ⟨k, after⟩ := kept j b before
    exact still k i key b a after new
  · intro fresh j k key' b c holdsB holdsC
    rcases held j key' b holdsB with ⟨rfl, rfl⟩ | ⟨j', heldB⟩
    · rcases held k key' c holdsC with ⟨_, rfl⟩ | ⟨k', heldC⟩
      · rfl
      · exact (fresh k' c heldC).symm
    · rcases held k key' c holdsC with ⟨rfl, rfl⟩ | ⟨k', heldC⟩
      · exact fresh j' b heldB
      · exact consistent j' k' key' b c heldB heldC

end Step

/-- From `low` on, a partial map has entries for exactly the numbers from one to another. -/
def Filled (low first last : ℕ) (entry : ℕ → Option α) : Prop :=
  ∀ n, low ≤ n → ((entry n).isSome ↔ first ≤ n ∧ n ≤ last)

/-- Of two logs that agree and have no gap, the shorter one is a beginning of the other. -/
theorem Filled.eq_of_agree {low first last last' : ℕ} {entry entry' : ℕ → Option α}
    (filled : Filled low first last entry) (filled' : Filled low first last' entry') (shorter : last ≤ last')
    (agree : ∀ n a b, low ≤ n → entry n = some a → entry' n = some b → a = b) (n : ℕ) (above : low ≤ n) :
    entry n = if n ≤ last then entry' n else none := by
  by_cases inside : first ≤ n ∧ n ≤ last
  · obtain ⟨a, has⟩ := Option.isSome_iff_exists.mp ((filled n above).mpr inside)
    obtain ⟨b, has'⟩ := Option.isSome_iff_exists.mp
      ((filled' n above).mpr ⟨inside.1, Nat.le_trans inside.2 shorter⟩)
    rw [if_pos inside.2, has, has', agree n a b above has has']
  · have absent : entry n = none := by
      apply Option.not_isSome_iff_eq_none.mp
      exact fun present => inside ((filled n above).mp present)
    rw [absent]
    split
    · next upTo =>
      have absent' : entry' n = none := by
        apply Option.not_isSome_iff_eq_none.mp
        exact fun present => inside ⟨((filled' n above).mp present).1, upTo⟩
      exact absent'.symm
    · rfl

end Copies
