import Identt.Query.Bin2Ascii

/-! # The loops of `bin2ascii`

`b64_encode` packs three bytes at a time into a number and cuts it into digits of six bits, `b64_decode` packs four
digits and cuts them into bytes. Each loop is followed from any group on, behind what was read and written before, and
does there what `Bin2Ascii` says of the group.
-/

namespace Identt.Query.Base64Loop

/-- `(u1) s[i]`, with the NUL that ends the text behind it. -/
def data (s : Bytes) (i : ℕ) : ℕ := (s.getD i 0).toNat

/-- `lookup` of `b64_encode`. -/
def digitChar (digit : ℕ) : UInt8 := b64Lookup.getD digit 0

/-- The loop of `b64_encode` from `i` on, with what is written so far. -/
def encodeLoop (s : Bytes) (i : ℕ) (r : Bytes) : Bytes :=
  if i < s.length then
    let n := data s i <<< 16
    let n := if i + 1 < s.length then n ||| data s (i + 1) <<< 8 else n
    let n := if i + 2 < s.length then n ||| data s (i + 2) else n
    let n0 := (n >>> 18) % 256 &&& 0x3f
    let n1 := (n >>> 12) % 256 &&& 0x3f
    let n2 := (n >>> 6) % 256 &&& 0x3f
    let n3 := n % 256 &&& 0x3f
    let r := r ++ [digitChar n0, digitChar n1]
    let r := if i + 1 < s.length then r ++ [digitChar n2] else r
    let r := if i + 2 < s.length then r ++ [digitChar n3] else r
    encodeLoop s (i + 3) r
  else r
termination_by s.length - i

def b64Encode (s : Bytes) (strip : Bool) : Bytes :=
  let r := encodeLoop s 0 []
  if strip then r else r ++ List.replicate ((3 - s.length % 3) % 3) b64Pad

def b64EncodeStrip (s : Bytes) : Bytes := b64Encode s true

/-- `lookup` of `b64_decode`. -/
def lookup : List ℕ :=
  [0x80, 0x80, 0x80, 0x80, 0x80, 0x80, 0x80, 0x80, 0x80, 0x80, 0x80, 0x80, 0x80, 0x80, 0x80, 0x80,
   0x80, 0x80, 0x80, 0x80, 0x80, 0x80, 0x80, 0x80, 0x80, 0x80, 0x80, 0x80, 0x80, 0x80, 0x80, 0x80,
   0x80, 0x80, 0x80, 0x80, 0x80, 0x80, 0x80, 0x80, 0x80, 0x80, 0x80, 0x3e, 0x80, 0x80, 0x80, 0x3f,
   0x34, 0x35, 0x36, 0x37, 0x38, 0x39, 0x3a, 0x3b, 0x3c, 0x3d, 0x80, 0x80, 0x80, 0x00, 0x80, 0x80,
   0x80, 0x00, 0x01, 0x02, 0x03, 0x04, 0x05, 0x06, 0x07, 0x08, 0x09, 0x0a, 0x0b, 0x0c, 0x0d, 0x0e,
   0x0f, 0x10, 0x11, 0x12, 0x13, 0x14, 0x15, 0x16, 0x17, 0x18, 0x19, 0x80, 0x80, 0x80, 0x80, 0x80,
   0x80, 0x1a, 0x1b, 0x1c, 0x1d, 0x1e, 0x1f, 0x20, 0x21, 0x22, 0x23, 0x24, 0x25, 0x26, 0x27, 0x28,
   0x29, 0x2a, 0x2b, 0x2c, 0x2d, 0x2e, 0x2f, 0x30, 0x31, 0x32, 0x33, 0x80, 0x80, 0x80, 0x80, 0x80] ++
  List.replicate 128 0x80

/-- The loop of `b64_decode` from `i` on, with what is written so far. -/
def decodeLoop (s : Bytes) (i : ℕ) (r : Bytes) : Except Exn Bytes :=
  if i < s.length then
    let n0 := lookup.getD (data s i) 0
    let n1 := lookup.getD (data s (i + 1)) 0
    let n2 := lookup.getD (data s (i + 2)) 0
    let n3 := lookup.getD (data s (i + 3)) 0
    if 0x80 &&& (n0 ||| n1 ||| n2 ||| n3) ≠ 0 then
      .error (.runtimeError (ascii "Invalid hex data: " ++ (s.drop i).take 4))
    else
      let n := n0 <<< 18 ||| n1 <<< 12 ||| n2 <<< 6 ||| n3
      let r := r ++ [UInt8.ofNat (n >>> 16 &&& 0xff)]
      let r := if s.getD (i + 2) 0 ≠ b64Pad then r ++ [UInt8.ofNat (n >>> 8 &&& 0xff)] else r
      let r := if s.getD (i + 3) 0 ≠ b64Pad then r ++ [UInt8.ofNat (n &&& 0xff)] else r
      decodeLoop s (i + 4) r
  else .ok r
termination_by s.length - i

def b64Decode (s : Bytes) : Except Exn Bytes :=
  if s = [] then .ok []
  else if s.length % 4 ≠ 0 then .error (.runtimeError (ascii "Invalid base64 data size"))
  else decodeLoop s 0 []

def b64SanitDecode (s : Bytes) : Except Exn Bytes := b64Decode (b64Sanit s)

section Numbers

/-- Joining with bits below those of the first number adds them. -/
theorem or_eq_add (high low k : ℕ) (below : low < 2 ^ k) : high * 2 ^ k ||| low = high * 2 ^ k + low := by
  rw [← Nat.shiftLeft_eq, Nat.shiftLeft_add_eq_or_of_lt below]

theorem pack_two (a : ℕ) {b : ℕ} (hb : b < 256) : a <<< 16 ||| b <<< 8 = a * 65536 + b * 256 := by
  rw [Nat.shiftLeft_eq, Nat.shiftLeft_eq]
  exact or_eq_add a (b * 256) 16 (by omega)

theorem pack_three (a : ℕ) {b c : ℕ} (hb : b < 256) (hc : c < 256) :
    a <<< 16 ||| b <<< 8 ||| c = a * 65536 + b * 256 + c := by
  have joined := or_eq_add (a * 256 + b) c 8 hc
  rw [pack_two a hb]
  rwa [show a * 65536 + b * 256 = (a * 256 + b) * 2 ^ 8 by omega]

theorem pack_four (n0 : ℕ) {n1 n2 n3 : ℕ} (h1 : n1 < 64) (h2 : n2 < 64) (h3 : n3 < 64) :
    n0 <<< 18 ||| n1 <<< 12 ||| n2 <<< 6 ||| n3 = n0 * 262144 + n1 * 4096 + n2 * 64 + n3 := by
  have first := or_eq_add n0 (n1 * 4096) 18 (by omega)
  have second := or_eq_add (n0 * 64 + n1) (n2 * 64) 12 (by omega)
  have third := or_eq_add (n0 * 4096 + n1 * 64 + n2) n3 6 h3
  simp only [Nat.shiftLeft_eq]
  rw [first, show n0 * 2 ^ 18 + n1 * 4096 = (n0 * 64 + n1) * 2 ^ 12 by omega, second,
    show (n0 * 64 + n1) * 2 ^ 12 + n2 * 64 = (n0 * 4096 + n1 * 64 + n2) * 2 ^ 6 by omega, third]
  omega

/-- The cast to a byte keeps the six bits of a digit. -/
theorem digit_eq (n k : ℕ) : (n >>> k) % 256 &&& 0x3f = n / 2 ^ k % 64 := by
  rw [Nat.shiftRight_eq_div_pow, Nat.and_two_pow_sub_one_eq_mod (n / 2 ^ k % 256) 6]
  omega

theorem byte_eq (n k : ℕ) : UInt8.ofNat (n >>> k &&& 0xff) = UInt8.ofNat (n / 2 ^ k) := by
  rw [Nat.shiftRight_eq_div_pow, Nat.and_two_pow_sub_one_eq_mod (n / 2 ^ k) 8]
  apply UInt8.toNat_inj.mp
  rw [UInt8.toNat_ofNat', UInt8.toNat_ofNat']
  omega

theorem byte_low (n : ℕ) : UInt8.ofNat (n &&& 0xff) = UInt8.ofNat n := by
  simpa using byte_eq n 0

end Numbers

section Encoding

theorem getD_append (pre rest : Bytes) (k : ℕ) : (pre ++ rest).getD (pre.length + k) 0 = rest.getD k 0 := by
  rw [List.getD_eq_getElem?_getD, List.getD_eq_getElem?_getD, List.getElem?_append_right (Nat.le_add_right _ _),
    Nat.add_sub_cancel_left]

theorem data_append (pre rest : Bytes) (k : ℕ) : data (pre ++ rest) (pre.length + k) = (rest.getD k 0).toNat := by
  rw [data, getD_append]

theorem data_append_zero (pre rest : Bytes) : data (pre ++ rest) pre.length = (rest.getD 0 0).toNat :=
  data_append pre rest 0

theorem digitChar_eq (n k : ℕ) : digitChar ((n >>> k) % 256 &&& 0x3f) = b64Char (n / 2 ^ k) := by
  rw [digit_eq, digitChar, b64Char]

theorem digitChar_low (n : ℕ) : digitChar (n % 256 &&& 0x3f) = b64Char n := by
  simpa using digitChar_eq n 0

theorem encodeLoop_of_le {s : Bytes} {i : ℕ} (behind : s.length ≤ i) (r : Bytes) : encodeLoop s i r = r := by
  rw [encodeLoop, if_neg (by omega)]

/-- From a group on, the loop appends what the groups from there on are written as. -/
theorem encodeLoop_append (pre rest r : Bytes) :
    encodeLoop (pre ++ rest) pre.length r = r ++ Query.b64EncodeStrip rest := by
  fun_induction Query.b64EncodeStrip rest generalizing pre r with
  | case1 => rw [encodeLoop_of_le (by simp), List.append_nil]
  | case2 a n =>
    have length : (pre ++ [a]).length = pre.length + 1 := by simp
    rw [encodeLoop, if_pos (by omega)]
    simp only [length, Nat.lt_irrefl, show ¬ pre.length + 2 < pre.length + 1 by omega, if_false, data_append_zero,
      List.getD_cons_zero, digitChar_eq, Nat.shiftLeft_eq]
    exact encodeLoop_of_le (by omega) _
  | case3 a b n =>
    have length : (pre ++ [a, b]).length = pre.length + 2 := by simp
    rw [encodeLoop, if_pos (by omega)]
    simp only [length, Nat.lt_irrefl, show pre.length + 1 < pre.length + 2 by omega, if_true, if_false,
      data_append_zero, data_append, List.getD_cons_zero, List.getD_cons_succ, digitChar_eq,
      pack_two a.toNat b.toNat_lt, List.append_assoc, List.cons_append, List.nil_append]
    exact encodeLoop_of_le (by omega) _
  | case4 a b c rest n ih =>
    have length : (pre ++ a :: b :: c :: rest).length = pre.length + 3 + rest.length := by
      simp only [List.length_append, List.length_cons]
      omega
    have next (written : Bytes) : encodeLoop (pre ++ a :: b :: c :: rest) (pre.length + 3) written =
        written ++ Query.b64EncodeStrip rest := by
      simpa using ih (pre ++ [a, b, c]) written
    rw [encodeLoop, if_pos (by omega)]
    simp only [length, show pre.length + 1 < pre.length + 3 + rest.length by omega,
      show pre.length + 2 < pre.length + 3 + rest.length by omega, if_true, data_append_zero, data_append,
      List.getD_cons_zero, List.getD_cons_succ, pack_three a.toNat b.toNat_lt c.toNat_lt, digitChar_eq, next]
    simp only [digitChar_low, List.append_assoc, List.cons_append, List.nil_append]
    rfl

theorem b64EncodeStrip_eq (s : Bytes) : b64EncodeStrip s = Query.b64EncodeStrip s := encodeLoop_append [] s []

end Encoding

section Padding

/-- The filler is as much after the text as before. -/
theorem padding_length (s : Bytes) :
    3 - ((Query.b64EncodeStrip s).length + 3) % 4 = (3 - s.length % 3) % 3 := by
  fun_induction Query.b64EncodeStrip s with
  | case1 => rfl
  | case2 a n | case3 a b n => simp
  | case4 a b c rest n ih =>
    simp only [List.length_cons]
    omega

theorem b64Encode_eq (s : Bytes) : b64Encode s false = Query.b64Encode s := by
  have stripped := b64EncodeStrip_eq s
  rw [b64EncodeStrip, b64Encode, if_pos rfl] at stripped
  rw [b64Encode, if_neg (by decide), stripped, ← padding_length, ← b64Sanit_encodeStrip, b64Sanit]

end Padding

section Decoding

/-- The table gives the digits, and has the top bit set where there is none. -/
theorem lookup_eq (c : UInt8) : lookup.getD c.toNat 0 = (b64Digit c).getD 0x80 :=
  forall_byte (p := fun c => lookup.getD c.toNat 0 = (b64Digit c).getD 0x80) (by decide +kernel) c

theorem b64Digit_lt {c : UInt8} {digit : ℕ} (value : b64Digit c = some digit) : digit < 64 :=
  forall_byte (p := fun c => ∀ digit, b64Digit c = some digit → digit < 64) (by decide +kernel) c digit value

theorem mark_eq_zero_iff (c : UInt8) : 0x80 &&& lookup.getD c.toNat 0 = 0 ↔ (b64Digit c).isSome := by
  have unmarked : ∀ digit < 64, 0x80 &&& digit = 0 := by decide
  rw [lookup_eq]
  cases value : b64Digit c with
  | none => decide
  | some digit => exact iff_of_true (unmarked digit (b64Digit_lt value)) rfl

/-- One test of the joined digits is a test of each. -/
theorem marks_eq_zero_iff (s0 s1 s2 s3 : UInt8) :
    0x80 &&& (lookup.getD s0.toNat 0 ||| lookup.getD s1.toNat 0 ||| lookup.getD s2.toNat 0 |||
        lookup.getD s3.toNat 0) = 0 ↔
      (b64Digit s0).isSome ∧ (b64Digit s1).isSome ∧ (b64Digit s2).isSome ∧ (b64Digit s3).isSome := by
  simp only [Nat.and_or_distrib_left, Nat.or_eq_zero_iff, mark_eq_zero_iff, and_assoc]

theorem decodeLoop_of_le {s : Bytes} {i : ℕ} (behind : s.length ≤ i) (r : Bytes) : decodeLoop s i r = .ok r := by
  rw [decodeLoop, if_neg (by omega)]

/-- From a group on, the loop appends what the groups from there on stand for, or stops at the first that is not
made of digits. -/
theorem decodeLoop_append (pre rest r : Bytes) (whole : rest.length % 4 = 0) :
    decodeLoop (pre ++ rest) pre.length r =
      (Query.b64Decode rest).elim (.error (.runtimeError (ascii "Invalid hex data: " ++ badGroup rest)))
        fun out => .ok (r ++ out) := by
  fun_induction badGroup rest generalizing pre r with
  | case1 s0 s1 s2 s3 rest digits ih =>
    have inside : pre.length < (pre ++ s0 :: s1 :: s2 :: s3 :: rest).length := by simp
    have unmarked := (marks_eq_zero_iff s0 s1 s2 s3).mpr digits
    have shorter : rest.length % 4 = 0 := by
      simp only [List.length_cons] at whole
      omega
    have next (written : Bytes) : decodeLoop (pre ++ s0 :: s1 :: s2 :: s3 :: rest) (pre.length + 4) written =
        (Query.b64Decode rest).elim (.error (.runtimeError (ascii "Invalid hex data: " ++ badGroup rest)))
          fun out => .ok (written ++ out) := by
      simpa using ih (pre ++ [s0, s1, s2, s3]) written shorter
    obtain ⟨⟨n0, value0⟩, ⟨n1, value1⟩, ⟨n2, value2⟩, n3, value3⟩ := by
      simpa only [Option.isSome_iff_exists] using digits
    have packed := pack_four n0 (b64Digit_lt value1) (b64Digit_lt value2) (b64Digit_lt value3)
    rw [decodeLoop, if_pos inside]
    simp only [data_append_zero, data_append, getD_append, List.getD_cons_zero, List.getD_cons_succ, unmarked,
      ne_eq, not_true_eq_false, if_false, next]
    simp only [lookup_eq, value0, value1, value2, value3, Option.getD_some, packed, byte_eq]
    simp only [byte_low]
    rw [Query.b64Decode]
    simp only [value0, value1, value2, value3, Option.bind_eq_bind, Option.bind_some, ne_eq]
    cases Query.b64Decode rest with
    | none => rfl
    | some out =>
      simp only [Option.bind_some, Option.elim_some, Option.pure_def]
      split_ifs <;> simp only [List.append_assoc, List.cons_append, List.nil_append] <;> rfl
  | case2 s0 s1 s2 s3 rest digits =>
    have inside : pre.length < (pre ++ s0 :: s1 :: s2 :: s3 :: rest).length := by simp
    have marked := mt (marks_eq_zero_iff s0 s1 s2 s3).mp digits
    have undecoded : Query.b64Decode (s0 :: s1 :: s2 :: s3 :: rest) = none := by
      rw [← Option.not_isSome_iff_eq_none, b64Decode_isSome_iff]
      intro isBase64
      simp only [IsBase64, List.forall_mem_cons] at isBase64
      tauto
    rw [decodeLoop, if_pos inside]
    simp only [data_append_zero, data_append, List.getD_cons_zero, List.getD_cons_succ, marked, ne_eq,
      not_false_eq_true, if_true, undecoded, Option.elim_none]
    simp
  | case3 rest short =>
    rw [eq_nil_of_whole whole short, decodeLoop_of_le (by simp), Query.b64Decode, Option.elim_some, List.append_nil]

theorem b64Decode_eq (s : Bytes) : b64Decode s = (Query.b64Decode s).elim (.error (b64Failure s)) .ok := by
  by_cases empty : s = []
  · rw [empty]
    rfl
  by_cases whole : s.length % 4 = 0
  · have read := decodeLoop_append [] s [] whole
    rw [b64Decode, if_neg empty, if_neg (by simpa using whole), b64Failure, if_neg (by simpa using whole)]
    exact read
  · have undecoded : Query.b64Decode s = none := by
      rw [← Option.not_isSome_iff_eq_none, b64Decode_isSome_iff]
      exact fun isBase64 => whole isBase64.1
    rw [b64Decode, if_neg empty, if_pos whole, undecoded, Option.elim_none, b64Failure, if_pos whole]

theorem b64Decode_encode (s : Bytes) : b64Decode (Query.b64Encode s) = .ok s := by
  rw [b64Decode_eq, Query.b64Decode_encode, Option.elim_some]

end Decoding

/-- Nothing is added to a text that has its filler. -/
theorem b64Sanit_encode (s : Bytes) : b64Sanit (Query.b64Encode s) = Query.b64Encode s := by
  have isBase64 : IsBase64 (Query.b64Encode s) := by
    rw [← b64Decode_isSome_iff, Query.b64Decode_encode, Option.isSome_some]
  have none_missing : 3 - ((Query.b64Encode s).length + 3) % 4 = 0 := by
    have whole := isBase64.1
    omega
  rw [b64Sanit, none_missing, List.replicate_zero, List.append_nil]

/-- What was written with its filler is read back, and what was written with or without it is when the filler is
put back first. -/
theorem b64_read_back (s : Bytes) :
    b64Decode (b64Encode s false) = .ok s ∧ b64SanitDecode (b64EncodeStrip s) = .ok s ∧
      b64SanitDecode (b64Encode s false) = .ok s := by
  refine ⟨?_, ?_, ?_⟩
  · rw [b64Encode_eq, b64Decode_encode]
  · rw [b64SanitDecode, b64EncodeStrip_eq, b64Sanit_encodeStrip, b64Decode_encode]
  · rw [b64SanitDecode, b64Encode_eq, b64Sanit_encode, b64Decode_encode]

end Identt.Query.Base64Loop
