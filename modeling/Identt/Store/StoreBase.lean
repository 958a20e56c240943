import Mathlib.Data.List.Infix
import Identt.Lib.Radix
import Identt.Proto.Store

/-! # Keys of the store (`StoreBase`)

The default build writes key types and identifiers as zero-padded hexadecimal numbers of at least
two and sixteen digits. Secondary keys join their fields by `:`; only their key type and their
identifiers have a fixed width, so the joined strings themselves are not injective.
-/

namespace Identt

/-- What the modelled code throws. `runtimeError` comes from base64, and the last two come from the conversion of a
text to a number that they name. -/
inductive Exn where
  | badData (msg : String)
  | badCode (msg : String)
  | badJson
  | runtimeError (text : Bytes)
  | initial (msg : String)
  | sydent (msg : String) (ecode : ℕ)
  | invalidArgument (function : String)
  | outOfRange (function : String)
deriving DecidableEq, Repr, Inhabited

/-- A computation that ends well ran both of its parts well. -/
theorem bind_eq_ok {E α β : Type} {first : Except E α} {next : α → Except E β} {b : β} :
    first >>= next = .ok b ↔ ∃ a, first = .ok a ∧ next a = .ok b := by
  cases first <;> simp [bind, Except.bind]

theorem ok_bind {E α β : Type} (a : α) (next : α → Except E β) : (Except.ok a >>= next) = next a := rfl

/-- What holds of every number of a byte holds of every byte. -/
theorem forall_byte {p : UInt8 → Prop} (numbers : ∀ n : Fin 256, p (UInt8.ofNat n)) (c : UInt8) : p c := by
  have number := numbers ⟨c.toNat, c.toNat_lt⟩
  rwa [UInt8.ofNat_toNat] at number

/-- A digit in lower case, as `std::hex` and `std::to_string` print it. -/
def digitChar (digit : ℕ) : UInt8 :=
  if digit < 10 then UInt8.ofNat (48 + digit) else UInt8.ofNat (87 + digit)

/-- `std::setbase(16) << std::setfill('0') << std::setw(width) << n`. -/
def hex (width n : ℕ) : Bytes := (Radix.numeral 16 width n).map digitChar

/-- `std::to_string` of an unsigned number. -/
def toString (n : ℕ) : Bytes := (Radix.numeral 10 1 n).map digitChar

/-- The number a character denotes in the base, if it is a digit of it. -/
def digitValue (base : ℕ) (c : UInt8) : Option ℕ :=
  let digit :=
    if 48 ≤ c ∧ c ≤ 57 then c.toNat - 48
    else if 97 ≤ c ∧ c ≤ 122 then c.toNat - 87
    else if 65 ≤ c ∧ c ≤ 90 then c.toNat - 55
    else base
  if digit < base then some digit else none

def leadingDigits (base : ℕ) : Bytes → List ℕ
  | [] => []
  | c :: rest =>
    match digitValue base c with
    | some digit => digit :: leadingDigits base rest
    | none => []

/-- `isspace` in the C locale. -/
def isSpace (c : UInt8) : Bool := c = 32 || (9 ≤ c && c ≤ 13)

/-- The optional `0x` of a hexadecimal number. -/
def skipMark (base : ℕ) (text : Bytes) : Bytes :=
  match text with
  | 48 :: x :: c :: rest =>
    if base = 16 ∧ (x = 120 ∨ x = 88) ∧ (digitValue 16 c).isSome then c :: rest else text
  | _ => text

/-- The conversion to 64 bits: blanks, a sign, `0x` in base 16, and then as many digits as there are. What
follows the digits is ignored, and a minus sign negates modulo `2^64`. -/
def stoa (function : String) (base : ℕ) (text : Bytes) : Except Exn ℕ :=
  let text := text.dropWhile isSpace
  let negative := text.head? = some 45
  let text := if text.head? = some 45 ∨ text.head? = some 43 then text.tail else text
  let digits := leadingDigits base (skipMark base text)
  if digits = [] then .error (.invalidArgument function)
  else if 2 ^ 64 ≤ Radix.value base digits then .error (.outOfRange function)
  else .ok (if negative then (2 ^ 64 - Radix.value base digits) % 2 ^ 64 else Radix.value base digits)

/-- `std::stoull`. -/
def stoull (base : ℕ) (text : Bytes) : Except Exn ℕ := stoa "stoull" base text

/-- `std::stoul`; `unsigned long` has 64 bits. -/
def stoul (text : Bytes) : Except Exn ℕ := stoa "stoul" 10 text

/-- `std::stoi`; an `int` has 32 bits. -/
def stoi (text : Bytes) : Except Exn ℤ :=
  let text := text.dropWhile isSpace
  let negative := text.head? = some 45
  let text := if text.head? = some 45 ∨ text.head? = some 43 then text.tail else text
  let digits := leadingDigits 10 text
  let number : ℤ := if negative then -Radix.value 10 digits else Radix.value 10 digits
  if digits = [] then .error (.invalidArgument "stoi")
  else if number < -2 ^ 31 ∨ 2 ^ 31 ≤ number then .error (.outOfRange "stoi")
  else .ok number

namespace Store

/-- `IDENTT_KEYID_LEN`. -/
def keyIdLen : ℕ := 2

/-- `IDENTT_NODE_LEN` of the hexadecimal build. -/
def nodeLen : ℕ := 16

def encodeKeyType (keytype : KeyTypeE) : Bytes := hex keyIdLen keytype.number

def encodePrimaryKey (keytype : KeyTypeE) (id : ℕ) : Bytes := encodeKeyType keytype ++ hex nodeLen id

/-- The key type's number and the identifier of a primary key. -/
def decodePrimaryKey (key : Bytes) : Except Exn (ℕ × ℕ) :=
  if key.length < keyIdLen + nodeLen then .error (.badData "Invalid Key probed")
  else do
    let x ← stoull 16 (key.take keyIdLen)
    let y ← stoull 16 ((key.drop keyIdLen).take nodeLen)
    return (x, y)

/-- An argument of `EncodeSecondaryKey`: a `uint64_t` or a `std::string`. -/
inductive KeyPart where
  | uint (n : ℕ)
  | strn (text : Bytes)

def KeyPart.format : KeyPart → Bytes
  | .uint n => hex nodeLen n
  | .strn text => text

/-- `IDENTT_FMT_SEP`, the character `:`. -/
def fmtSep : UInt8 := 58

def joinParts : List KeyPart → Bytes
  | [] => []
  | [part] => part.format
  | part :: rest => part.format ++ fmtSep :: joinParts rest

/-- Every overload of `EncodeSecondaryKey`, for any number and kinds of arguments. -/
def encodeSecondaryKey (keytype : KeyTypeE) (parts : List KeyPart) : Bytes :=
  encodeKeyType keytype ++ joinParts parts

/-- The key starts with the two characters of the key type. -/
def HasType (keytype : KeyTypeE) (key : Bytes) : Prop := encodeKeyType keytype <+: key

instance (keytype : KeyTypeE) (key : Bytes) : Decidable (HasType keytype key) :=
  inferInstanceAs (Decidable (_ <+: _))

theorem digitChar_toNat {digit : ℕ} (small : digit < 16) :
    (digitChar digit).toNat = if digit < 10 then 48 + digit else 87 + digit := by
  unfold digitChar
  split <;> simp only [UInt8.toNat_ofNat'] <;> omega

theorem digitChar_lt {left right : ℕ} (rightSmall : right < 16) (less : left < right) :
    digitChar left < digitChar right := by
  rw [UInt8.lt_iff_toNat_lt, digitChar_toNat (by omega), digitChar_toNat rightSmall]
  split_ifs <;> omega

theorem digitValue_lt {base digit : ℕ} {c : UInt8} (value : digitValue base c = some digit) : digit < base := by
  rw [digitValue, Option.ite_none_right_eq_some] at value
  exact Option.some.inj value.2 ▸ value.1

theorem digitValue_digitChar {base digit : ℕ} (inBase : digit < base) (small : base ≤ 16) :
    digitValue base (digitChar digit) = some digit := by
  have number := digitChar_toNat (show digit < 16 by omega)
  simp only [digitValue, UInt8.le_iff_toNat_le, number]
  split_ifs with low <;> simp_all <;> omega

/-- Printing digits keeps their lexicographic order. -/
theorem map_digitChar_lt {left right : List ℕ} (rightSmall : ∀ digit ∈ right, digit < 16)
    (less : left < right) : left.map digitChar < right.map digitChar := by
  induction left generalizing right with
  | nil =>
    cases right with
    | nil => exact (lt_irrefl _ less).elim
    | cons => exact List.nil_lt_cons _ _
  | cons digit rest ih =>
    cases right with
    | nil => exact (List.not_lt_nil _ less).elim
    | cons digit' rest' =>
      have head := rightSmall digit' (List.mem_cons_self ..)
      have tail := fun other member => rightSmall other (List.mem_cons_of_mem _ member)
      refine List.cons_lt_cons_iff.mpr ((List.cons_lt_cons_iff.mp less).imp ?_ ?_)
      · exact digitChar_lt head
      · rintro ⟨rfl, lower⟩
        exact ⟨rfl, ih tail lower⟩

theorem leadingDigits_map {base : ℕ} (small : base ≤ 16) {digits : List ℕ}
    (inBase : ∀ digit ∈ digits, digit < base) : leadingDigits base (digits.map digitChar) = digits := by
  induction digits with
  | nil => rfl
  | cons digit rest ih =>
    have head := digitValue_digitChar (inBase digit (List.mem_cons_self ..)) small
    have tail := ih fun other member => inBase other (List.mem_cons_of_mem _ member)
    simp [leadingDigits, head, tail]

theorem map_digitChar_injective {base : ℕ} (small : base ≤ 16) {left right : List ℕ}
    (leftDigits : ∀ digit ∈ left, digit < base) (rightDigits : ∀ digit ∈ right, digit < base)
    (same : left.map digitChar = right.map digitChar) : left = right := by
  rw [← leadingDigits_map small leftDigits, same, leadingDigits_map small rightDigits]

theorem hex_injective (width : ℕ) : Function.Injective (hex width) := by
  intro m n same
  apply Radix.numeral_injective 16 width
  exact map_digitChar_injective le_rfl (fun _ => Radix.digit_lt (by omega))
    (fun _ => Radix.digit_lt (by omega)) same

theorem toString_injective : Function.Injective toString := by
  intro m n same
  apply Radix.numeral_injective 10 1
  have tenOk : 10 ≤ 16 := by omega
  exact map_digitChar_injective tenOk (fun _ => Radix.digit_lt (by omega))
    (fun _ => Radix.digit_lt (by omega)) same

theorem hex_length {width n : ℕ} (fits : n < 16 ^ width) : (hex width n).length = width := by
  rw [hex, List.length_map, Radix.numeral_length (by omega) fits]

theorem hex_lt_iff {width m n : ℕ} (mFits : m < 16 ^ width) (nFits : n < 16 ^ width) :
    hex width m < hex width n ↔ m < n := by
  have forward {m n : ℕ} (mFits : m < 16 ^ width) (nFits : n < 16 ^ width) (less : m < n) :
      hex width m < hex width n :=
    map_digitChar_lt (fun _ => Radix.digit_lt (by omega))
      ((Radix.numeral_lt_iff (by omega) mFits nFits).mpr less)
  constructor
  · intro less
    by_contra notLess
    rcases lt_or_eq_of_le (not_lt.mp notLess) with greater | equal
    · exact less.asymm (forward nFits mFits greater)
    · exact less.ne (congrArg _ equal.symm)
  · exact forward mFits nFits

/-- Hexadecimal digits are never the separator. -/
theorem fmtSep_notMem_hex (width n : ℕ) : fmtSep ∉ hex width n := by
  intro member
  obtain ⟨digit, inNumeral, same⟩ := List.mem_map.mp member
  have number := digitChar_toNat (Radix.digit_lt (by omega) inNumeral)
  have sep : (digitChar digit).toNat = 58 := congrArg UInt8.toNat same
  have small := Radix.digit_lt (b := 16) (by omega) inNumeral
  split_ifs at number <;> omega

theorem joinParts_concat {parts : List KeyPart} (nonempty : parts ≠ []) (part : KeyPart) :
    joinParts (parts ++ [part]) = joinParts parts ++ fmtSep :: part.format := by
  induction parts with
  | nil => contradiction
  | cons head rest ih =>
    cases rest with
    | nil => rfl
    | cons next rest =>
      simp only [List.cons_append, joinParts] at ih ⊢
      rw [ih (List.cons_ne_nil _ _), List.append_assoc, List.cons_append]

/-- A string can be cut at its first separator in one way. -/
theorem eq_of_sep_append {first first' left right : Bytes} (clean : fmtSep ∉ first)
    (clean' : fmtSep ∉ first') (same : first ++ fmtSep :: left = first' ++ fmtSep :: right) :
    first = first' ∧ left = right := by
  induction first generalizing first' with
  | nil =>
    cases first' with
    | nil => exact ⟨rfl, List.tail_eq_of_cons_eq same⟩
    | cons c rest =>
      have head := List.head_eq_of_cons_eq same
      exact (clean' (head ▸ List.mem_cons_self ..)).elim
  | cons c rest ih =>
    cases first' with
    | nil =>
      have head := List.head_eq_of_cons_eq same
      exact (clean (head ▸ List.mem_cons_self ..)).elim
    | cons c' rest' =>
      obtain ⟨head, tail⟩ := List.cons.inj same
      obtain ⟨front, back⟩ := ih (fun member => clean (List.mem_cons_of_mem _ member))
        (fun member => clean' (List.mem_cons_of_mem _ member)) tail
      exact ⟨by rw [head, front], back⟩

/-- What follows the last separator can be read off a joined string. -/
theorem eq_of_append_sep {left right last last' : Bytes} (clean : fmtSep ∉ last)
    (clean' : fmtSep ∉ last') (same : left ++ fmtSep :: last = right ++ fmtSep :: last') :
    left = right ∧ last = last' := by
  have reversed := congrArg List.reverse same
  simp only [List.reverse_append, List.reverse_cons, List.append_assoc, List.singleton_append]
    at reversed
  obtain ⟨lastSame, restSame⟩ := eq_of_sep_append (by simpa using clean) (by simpa using clean') reversed
  exact ⟨List.reverse_injective restSame, List.reverse_injective lastSame⟩

/-- Keys that end in an identifier after a separator determine it. -/
theorem encodeSecondaryKey_uint_injective {keytype : KeyTypeE} {left right : List KeyPart}
    (leftNonempty : left ≠ []) (rightNonempty : right ≠ []) {m n : ℕ}
    (same : encodeSecondaryKey keytype (left ++ [.uint m]) = encodeSecondaryKey keytype (right ++ [.uint n])) :
    m = n := by
  have joined := List.append_cancel_left same
  rw [joinParts_concat leftNonempty, joinParts_concat rightNonempty] at joined
  exact hex_injective _ (eq_of_append_sep (fmtSep_notMem_hex _ _) (fmtSep_notMem_hex _ _) joined).2

@[simp] theorem encodeKeyType_length (keytype : KeyTypeE) : (encodeKeyType keytype).length = 2 :=
  hex_length keytype.number_lt

theorem encodeKeyType_injective : Function.Injective encodeKeyType := by
  intro left right same
  exact KeyTypeE.number_injective (hex_injective _ same)

/-- A key has at most one type. -/
theorem HasType.unique {left right : KeyTypeE} {key : Bytes} (hasLeft : HasType left key)
    (hasRight : HasType right key) : left = right := by
  apply encodeKeyType_injective
  exact (List.prefix_of_prefix_length_le hasLeft hasRight (by simp)).eq_of_length (by simp)

theorem hasType_encodePrimaryKey (keytype : KeyTypeE) (id : ℕ) :
    HasType keytype (encodePrimaryKey keytype id) := List.prefix_append ..

theorem hasType_encodeSecondaryKey (keytype : KeyTypeE) (parts : List KeyPart) :
    HasType keytype (encodeSecondaryKey keytype parts) := List.prefix_append ..

theorem encodePrimaryKey_injective (keytype : KeyTypeE) : Function.Injective (encodePrimaryKey keytype) := by
  intro m n same
  exact hex_injective _ (List.append_cancel_left same)

@[simp] theorem encodePrimaryKey_inj {keytype : KeyTypeE} {m n : ℕ} :
    encodePrimaryKey keytype m = encodePrimaryKey keytype n ↔ m = n :=
  (encodePrimaryKey_injective keytype).eq_iff

theorem encodePrimaryKey_length {keytype : KeyTypeE} {id : ℕ} (fits : id < 2 ^ 64) :
    (encodePrimaryKey keytype id).length = keyIdLen + nodeLen := by
  rw [encodePrimaryKey, List.length_append, encodeKeyType_length,
    hex_length (show id < 16 ^ nodeLen by simpa [nodeLen] using fits)]
  rfl

end Store

end Identt
