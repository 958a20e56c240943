import Identt.Store.StoreBase

/-! # Base64 (`bin2ascii`)

Messages travel between nodes in base64. Three bytes become four characters; the last group is filled
up with `=`. Decoding gives back what was encoded.
-/

namespace Identt.Query

/-- The characters of the digits. -/
def b64Lookup : Bytes := ascii "ABCDEFGHIJKLMNOPQRSTUVWXYZabcdefghijklmnopqrstuvwxyz0123456789+/"

/-- `lookup[n & 0x3f]`. -/
def b64Char (n : ℕ) : UInt8 := b64Lookup.getD (n % 64) 0

/-- The filler `=`. -/
def b64Pad : UInt8 := 61

/-- `b64_encode`, group by group. -/
def b64Encode : Bytes → Bytes
  | [] => []
  | [a] =>
    let n := a.toNat * 65536
    [b64Char (n / 262144), b64Char (n / 4096), b64Pad, b64Pad]
  | [a, b] =>
    let n := a.toNat * 65536 + b.toNat * 256
    [b64Char (n / 262144), b64Char (n / 4096), b64Char (n / 64), b64Pad]
  | a :: b :: c :: rest =>
    let n := a.toNat * 65536 + b.toNat * 256 + c.toNat
    b64Char (n / 262144) :: b64Char (n / 4096) :: b64Char (n / 64) :: b64Char n :: b64Encode rest

/-- `b64_encode` with `strip`, which leaves the filler out. -/
def b64EncodeStrip : Bytes → Bytes
  | [] => []
  | [a] =>
    let n := a.toNat * 65536
    [b64Char (n / 262144), b64Char (n / 4096)]
  | [a, b] =>
    let n := a.toNat * 65536 + b.toNat * 256
    [b64Char (n / 262144), b64Char (n / 4096), b64Char (n / 64)]
  | a :: b :: c :: rest =>
    let n := a.toNat * 65536 + b.toNat * 256 + c.toNat
    b64Char (n / 262144) :: b64Char (n / 4096) :: b64Char (n / 64) :: b64Char n :: b64EncodeStrip rest

/-- `b64_sanit`: fill up to groups of four. -/
def b64Sanit (s : Bytes) : Bytes := s ++ List.replicate (3 - (s.length + 3) % 4) b64Pad

/-- The digit of a character, if it is one; the filler counts as zero. -/
def b64Digit (c : UInt8) : Option ℕ :=
  if 65 ≤ c ∧ c ≤ 90 then some (c.toNat - 65)
  else if 97 ≤ c ∧ c ≤ 122 then some (c.toNat - 71)
  else if 48 ≤ c ∧ c ≤ 57 then some (c.toNat + 4)
  else if c = 43 then some 62
  else if c = 47 then some 63
  else if c = b64Pad then some 0
  else none

/-- `b64_decode`, group by group; `none` stands for the exceptions about size and characters. -/
def b64Decode : Bytes → Option Bytes
  | [] => some []
  | s0 :: s1 :: s2 :: s3 :: rest => do
    let n0 ← b64Digit s0
    let n1 ← b64Digit s1
    let n2 ← b64Digit s2
    let n3 ← b64Digit s3
    let n := n0 * 262144 + n1 * 4096 + n2 * 64 + n3
    let tail ← b64Decode rest
    return UInt8.ofNat (n / 65536) :: ((if s2 ≠ b64Pad then [UInt8.ofNat (n / 256)] else []) ++
      (if s3 ≠ b64Pad then [UInt8.ofNat n] else []) ++ tail)
  | _ => none

/-- The first group that is not made of digits. -/
def badGroup : Bytes → Bytes
  | s0 :: s1 :: s2 :: s3 :: rest =>
    if (b64Digit s0).isSome ∧ (b64Digit s1).isSome ∧ (b64Digit s2).isSome ∧ (b64Digit s3).isSome then badGroup rest
    else [s0, s1, s2, s3]
  | _ => []

/-- What `b64_decode` throws. -/
def b64Failure (s : Bytes) : Exn :=
  if s.length % 4 ≠ 0 then .runtimeError (ascii "Invalid base64 data size")
  else .runtimeError (ascii "Invalid hex data: " ++ badGroup s)

/-- `b64_sanit_decode`. -/
def b64SanitDecode (s : Bytes) : Except Exn Bytes :=
  match b64Decode (b64Sanit s) with
  | some s => .ok s
  | none => .error (b64Failure (b64Sanit s))

/-- Texts that `b64_decode` decodes. -/
def IsBase64 (text : Bytes) : Prop := text.length % 4 = 0 ∧ ∀ c ∈ text, (b64Digit c).isSome

instance (text : Bytes) : Decidable (IsBase64 text) := inferInstanceAs (Decidable (_ ∧ _))

/-- Whole groups that do not begin with a group are none. -/
theorem eq_nil_of_whole {text : Bytes} (whole : text.length % 4 = 0)
    (noGroup : ∀ (s0 s1 s2 s3 : UInt8) (rest : Bytes), text = s0 :: s1 :: s2 :: s3 :: rest → False) : text = [] := by
  match text, whole with
  | [], _ => rfl
  | [_], length | [_, _], length | [_, _, _], length => simp at length
  | _ :: _ :: _ :: _ :: _, _ => exact (noGroup _ _ _ _ _ rfl).elim

theorem b64Decode_isSome_iff (text : Bytes) : (b64Decode text).isSome ↔ IsBase64 text := by
  fun_induction b64Decode text with
  | case1 => simp [IsBase64]
  | case2 s0 s1 s2 s3 rest ih =>
    have length : (s0 :: s1 :: s2 :: s3 :: rest).length % 4 = rest.length % 4 := by
      simp only [List.length_cons]
      omega
    rw [IsBase64] at ih
    rw [IsBase64, length]
    simp only [List.forall_mem_cons]
    cases b64Digit s0 <;> cases b64Digit s1 <;> cases b64Digit s2 <;> cases b64Digit s3 <;>
      simp [← ih, Option.isSome_bind]
  | case3 text notNil notFour =>
    refine iff_of_false (by simp) fun isBase64 => ?_
    exact notNil (eq_nil_of_whole isBase64.1 notFour)

theorem b64Digit_char (n : ℕ) : b64Digit (b64Char n) = some (n % 64) := by
  have each : ∀ digit < 64, b64Digit (b64Lookup.getD digit 0) = some digit := by decide +kernel
  exact each (n % 64) (Nat.mod_lt n (by decide))

theorem b64Char_ne {n : ℕ} {c : UInt8} (other : c ∉ b64Lookup) : b64Char n ≠ c := by
  intro same
  have inside : n % 64 < b64Lookup.length := Nat.mod_lt n (by decide)
  rw [b64Char, List.getD_eq_getElem?_getD, List.getElem?_eq_getElem inside, Option.getD_some] at same
  exact other (same ▸ List.getElem_mem inside)

theorem b64Char_ne_pad (n : ℕ) : b64Char n ≠ b64Pad := b64Char_ne (by decide)

theorem ofNat_of_eq {a : UInt8} {n : ℕ} (low : n % 256 = a.toNat) : UInt8.ofNat n = a := by
  apply UInt8.toNat_inj.mp
  rw [UInt8.toNat_ofNat']
  exact low

/-- Decoding gives back what was encoded. -/
theorem b64Decode_encode (s : Bytes) : b64Decode (b64Encode s) = some s := by
  have digitPad : b64Digit b64Pad = some 0 := by decide
  fun_induction b64Encode s with
  | case1 => rfl
  | case2 a n =>
    have ha := a.toNat_lt
    simp only [b64Decode, b64Digit_char, digitPad, Option.bind_eq_bind, Option.bind_some, ne_eq,
      not_true_eq_false, if_false, List.append_nil, Option.pure_def]
    rw [ofNat_of_eq (a := a) (by omega)]
  | case3 a b n =>
    have ha := a.toNat_lt
    have hb := b.toNat_lt
    simp only [b64Decode, b64Digit_char, digitPad, Option.bind_eq_bind, Option.bind_some, ne_eq,
      not_true_eq_false, b64Char_ne_pad, not_false_eq_true, if_true, if_false, List.append_nil, Option.pure_def]
    rw [ofNat_of_eq (a := a) (by omega), ofNat_of_eq (a := b) (by omega)]
  | case4 a b c rest n ih =>
    have ha := a.toNat_lt
    have hb := b.toNat_lt
    have hc := c.toNat_lt
    simp only [b64Decode, b64Digit_char, ih, Option.bind_eq_bind, Option.bind_some, ne_eq,
      b64Char_ne_pad, not_false_eq_true, if_true, List.cons_append, Option.pure_def]
    rw [ofNat_of_eq (a := a) (by omega), ofNat_of_eq (a := b) (by omega), ofNat_of_eq (a := c) (by omega)]
    rfl

/-- Base64 text has no NUL in it, so it survives as a C string. -/
theorem b64Encode_ne_zero (s : Bytes) : ∀ c ∈ b64Encode s, c ≠ 0 := by
  have char (n : ℕ) : b64Char n ≠ 0 := b64Char_ne (by decide)
  fun_induction b64Encode s with
  | case1 => exact fun c member => (List.not_mem_nil member).elim
  | case2 a n | case3 a b n =>
    simp only [List.forall_mem_cons, char, ne_eq, not_false_eq_true, true_and, List.not_mem_nil, false_implies,
      implies_true, and_true]
    decide
  | case4 a b c rest n ih =>
    simp only [List.forall_mem_cons, char, ne_eq, not_false_eq_true, true_and]
    exact ih

theorem b64EncodeStrip_ne_zero (s : Bytes) : ∀ c ∈ b64EncodeStrip s, c ≠ 0 := by
  have char (n : ℕ) : b64Char n ≠ 0 := b64Char_ne (by decide)
  fun_induction b64EncodeStrip s with
  | case1 => exact fun c member => (List.not_mem_nil member).elim
  | case2 a n | case3 a b n =>
    simp only [List.forall_mem_cons, char, ne_eq, not_false_eq_true, true_and, List.not_mem_nil, false_implies,
      implies_true]
  | case4 a b c rest n ih =>
    simp only [List.forall_mem_cons, char, ne_eq, not_false_eq_true, true_and]
    exact ih

/-- Filling up what was written without filler. -/
theorem b64Sanit_encodeStrip (s : Bytes) : b64Sanit (b64EncodeStrip s) = b64Encode s := by
  fun_induction b64EncodeStrip s with
  | case1 => rfl
  | case2 a n | case3 a b n => simp [b64Sanit, b64Encode, n]
  | case4 a b c rest n ih =>
    have length : (3 - ((b64EncodeStrip rest).length + 1 + 1 + 1 + 1 + 3) % 4) =
        3 - ((b64EncodeStrip rest).length + 3) % 4 := by omega
    rw [b64Encode, ← ih]
    simp only [b64Sanit, List.length_cons, length, List.cons_append]
    rfl

theorem b64SanitDecode_encodeStrip (s : Bytes) : b64SanitDecode (b64EncodeStrip s) = .ok s := by
  rw [b64SanitDecode, b64Sanit_encodeStrip, b64Decode_encode]

theorem b64EncodeStrip_length (s : Bytes) : (b64EncodeStrip s).length = (4 * s.length + 2) / 3 := by
  induction s using b64EncodeStrip.induct with
  | case1 => rfl
  | case2 | case3 => simp [b64EncodeStrip]
  | case4 a b c rest ih =>
    simp only [b64EncodeStrip, List.length_cons, ih]
    omega

end Identt.Query
