import Mathlib.Data.Nat.Digits.Defs
import Mathlib.Data.Nat.Digits.Lemmas
import Mathlib.Data.List.Lex

/-! # Positional numerals with leading zeros

`numeral b width n` writes `n` in base `b`, most significant digit first, with zeros up to at least
`width` digits; `value` reads digits back. Numbers that fit the width have numerals of exactly that
length, and then the lexicographic order of numerals is the order of numbers.
-/

namespace Radix

/-- The number written by a list of digits, most significant first. -/
def value (b : ℕ) (digits : List ℕ) : ℕ := digits.foldl (fun acc digit => acc * b + digit) 0

def numeral (b width n : ℕ) : List ℕ :=
  List.replicate (width - (b.digits n).length) 0 ++ (b.digits n).reverse

theorem value_eq_ofDigits (b : ℕ) (digits : List ℕ) : value b digits = Nat.ofDigits b digits.reverse := by
  induction digits using List.reverseRecOn with
  | nil => rfl
  | append_singleton front digit ih =>
    rw [List.reverse_append, List.reverse_singleton, List.singleton_append, Nat.ofDigits_cons, ← ih]
    simp only [value, List.foldl_append, List.foldl_cons, List.foldl_nil]
    ring

@[simp] theorem value_numeral (b width n : ℕ) : value b (numeral b width n) = n := by
  rw [value_eq_ofDigits, numeral, List.reverse_append, List.reverse_reverse, List.reverse_replicate,
    Nat.ofDigits_append, Nat.ofDigits_replicate_zero, Nat.ofDigits_digits]
  simp

theorem numeral_injective (b width : ℕ) : Function.Injective (numeral b width) := by
  intro m n same
  rw [← value_numeral b width m, same, value_numeral]

theorem digit_lt {b width n digit : ℕ} (large : 1 < b) (member : digit ∈ numeral b width n) :
    digit < b := by
  rcases List.mem_append.mp member with zero | inDigits
  · rw [List.eq_of_mem_replicate zero]
    omega
  · exact Nat.digits_lt_base large (List.mem_reverse.mp inDigits)

theorem numeral_length_ge (b width n : ℕ) : width ≤ (numeral b width n).length := by
  simp only [numeral, List.length_append, List.length_replicate, List.length_reverse]
  omega

theorem numeral_length {b width n : ℕ} (large : 1 < b) (fits : n < b ^ width) :
    (numeral b width n).length = width := by
  have short : (b.digits n).length ≤ width := (Nat.digits_length_le_iff large n).mpr fits
  simp only [numeral, List.length_append, List.length_replicate, List.length_reverse]
  omega

theorem value_cons (b digit : ℕ) (rest : List ℕ) :
    value b (digit :: rest) = digit * b ^ rest.length + value b rest := by
  rw [value_eq_ofDigits, value_eq_ofDigits, List.reverse_cons, Nat.ofDigits_append,
    List.length_reverse, Nat.ofDigits_singleton]
  ring

theorem value_lt {b : ℕ} {digits : List ℕ} (small : ∀ digit ∈ digits, digit < b) :
    value b digits < b ^ digits.length := by
  induction digits with
  | nil => simp [value]
  | cons digit rest ih =>
    have tail := ih fun other member => small other (List.mem_cons_of_mem _ member)
    have head := small digit (List.mem_cons_self ..)
    rw [value_cons, List.length_cons, Nat.pow_succ, Nat.mul_comm (b ^ _)]
    calc
      digit * b ^ rest.length + value b rest
          < digit * b ^ rest.length + b ^ rest.length := by omega
      _ = (digit + 1) * b ^ rest.length := by ring
      _ ≤ b * b ^ rest.length := Nat.mul_le_mul_right _ head

/-- Digit lists of one length compare like the numbers they write. -/
theorem value_lt_of_lt {b : ℕ} {left right : List ℕ} (sameLength : left.length = right.length)
    (small : ∀ digit ∈ left, digit < b) (less : left < right) : value b left < value b right := by
  induction left generalizing right with
  | nil =>
    cases right with
    | nil => exact (lt_irrefl _ less).elim
    | cons => simp at sameLength
  | cons digit rest ih =>
    cases right with
    | nil => simp at sameLength
    | cons digit' rest' =>
      have tailLength : rest.length = rest'.length := by simpa using sameLength
      have tailSmall : ∀ other ∈ rest, other < b :=
        fun other member => small other (List.mem_cons_of_mem _ member)
      rw [value_cons, value_cons, tailLength]
      rcases List.cons_lt_cons_iff.mp less with lower | ⟨same, lower⟩
      · have bound := value_lt tailSmall
        rw [tailLength] at bound
        calc
          digit * b ^ rest'.length + value b rest
              < digit * b ^ rest'.length + b ^ rest'.length := by omega
          _ = (digit + 1) * b ^ rest'.length := by ring
          _ ≤ digit' * b ^ rest'.length := Nat.mul_le_mul_right _ lower
          _ ≤ digit' * b ^ rest'.length + value b rest' := Nat.le_add_right ..
      · rw [same]
        exact Nat.add_lt_add_left (ih tailLength tailSmall lower) _

/-- Within the width, numerals sort like the numbers. -/
theorem numeral_lt_iff {b width m n : ℕ} (large : 1 < b) (mFits : m < b ^ width)
    (nFits : n < b ^ width) : numeral b width m < numeral b width n ↔ m < n := by
  have sameLength : (numeral b width m).length = (numeral b width n).length := by
    rw [numeral_length large mFits, numeral_length large nFits]
  constructor
  · intro less
    simpa using value_lt_of_lt sameLength (fun _ member => digit_lt large member) less
  · intro less
    by_contra notLess
    rcases lt_or_eq_of_le (not_lt.mp notLess) with greater | equal
    · have reversed := value_lt_of_lt sameLength.symm (fun _ member => digit_lt large member) greater
      rw [value_numeral, value_numeral] at reversed
      omega
    · exact less.ne (numeral_injective b width equal.symm)

end Radix
