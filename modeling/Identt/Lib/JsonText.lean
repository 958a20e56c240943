import Identt.Lib.Json
import Identt.Lib.Radix

/-! # Compact JSON text

The text of a document without floating-point numbers, with nothing between its tokens, and a parser of such
texts. Strings escape quotes, backslashes and control characters; all other bytes stand for themselves. The
parser gives back what was written, and no text has a NUL in it.
-/

namespace JsonText

/-- A hexadecimal digit in upper case. -/
def hexDigit (n : ℕ) : UInt8 := if n < 10 then UInt8.ofNat (48 + n) else UInt8.ofNat (55 + n)

def hexValue (c : UInt8) : ℕ := if c < 58 then c.toNat - 48 else c.toNat - 55

/-- The letter behind the backslash of a short escape. -/
def shortEscape (c : UInt8) : Option UInt8 :=
  if c = 34 ∨ c = 92 then some c
  else if c = 8 then some 98
  else if c = 9 then some 116
  else if c = 10 then some 110
  else if c = 12 then some 102
  else if c = 13 then some 114
  else none

/-- What the letter behind a backslash stands for. -/
def unescape (letter : UInt8) : Option UInt8 :=
  if letter = 34 ∨ letter = 92 then some letter
  else if letter = 98 then some 8
  else if letter = 116 then some 9
  else if letter = 110 then some 10
  else if letter = 102 then some 12
  else if letter = 114 then some 13
  else none

def writeChar (c : UInt8) : List UInt8 :=
  match shortEscape c with
  | some letter => [92, letter]
  | none => if c < 32 then [92, 117, 48, 48, hexDigit (c.toNat / 16), hexDigit (c.toNat % 16)] else [c]

/-- A string behind its opening quote. -/
def writeString (text : List UInt8) : List UInt8 := text.flatMap writeChar ++ [34]

def writeNat (n : ℕ) : List UInt8 := (Radix.numeral 10 1 n).map hexDigit

def writeInt (n : ℤ) : List UInt8 := if n < 0 then 45 :: writeNat n.natAbs else writeNat n.natAbs

mutual

def write : Json Empty → List UInt8
  | .null => [110, 117, 108, 108]
  | .bool true => [116, 114, 117, 101]
  | .bool false => [102, 97, 108, 115, 101]
  | .int n => writeInt n.val
  | .string text => 34 :: writeString text
  | .array [] => [91, 93]
  | .array (elem :: elems) => 91 :: (write elem ++ writeElems elems)
  | .object [] => [123, 125]
  | .object ((name, value) :: members) =>
    123 :: 34 :: (writeString name ++ 58 :: (write value ++ writeMembers members))

/-- The elements behind the first one. -/
def writeElems : List (Json Empty) → List UInt8
  | [] => [93]
  | elem :: elems => 44 :: (write elem ++ writeElems elems)

/-- The members behind the first one. -/
def writeMembers : List (List UInt8 × Json Empty) → List UInt8
  | [] => [125]
  | (name, value) :: members => 44 :: 34 :: (writeString name ++ 58 :: (write value ++ writeMembers members))

end

def parseString : List UInt8 → Option (List UInt8 × List UInt8)
  | [] => none
  | 34 :: rest => some ([], rest)
  | 92 :: 117 :: 48 :: 48 :: high :: low :: rest =>
    (parseString rest).map fun (text, rest) => (UInt8.ofNat (16 * hexValue high + hexValue low) :: text, rest)
  | 92 :: letter :: rest =>
    match unescape letter with
    | some c => (parseString rest).map fun (text, rest) => (c :: text, rest)
    | none => none
  | c :: rest => (parseString rest).map fun (text, rest) => (c :: text, rest)

def isDigit (c : UInt8) : Bool := 48 ≤ c ∧ c < 58

def parseNat (text : List UInt8) : Option (ℕ × List UInt8) :=
  match text.takeWhile isDigit with
  | [] => none
  | digits => some (Radix.value 10 (digits.map hexValue), text.dropWhile isDigit)

def parseInt (text : List UInt8) : Option (Json Empty × List UInt8) :=
  let number : Option (ℤ × List UInt8) :=
    if text.head? = some 45 then (parseNat text.tail).map fun (n, rest) => (-n, rest)
    else (parseNat text).map fun (n, rest) => (n, rest)
  match number with
  | some (n, rest) =>
    if fits : -2 ^ 63 ≤ n ∧ n < 2 ^ 64 then some (.int ⟨n, fits.1, fits.2⟩, rest) else none
  | none => none

mutual

def parseValue : ℕ → List UInt8 → Option (Json Empty × List UInt8)
  | 0, _ => none
  | fuel + 1, text =>
    match text with
    | 110 :: 117 :: 108 :: 108 :: rest => some (.null, rest)
    | 116 :: 114 :: 117 :: 101 :: rest => some (.bool true, rest)
    | 102 :: 97 :: 108 :: 115 :: 101 :: rest => some (.bool false, rest)
    | 34 :: rest => (parseString rest).map fun (text, rest) => (.string text, rest)
    | 91 :: 93 :: rest => some (.array [], rest)
    | 91 :: rest => do
      let (elem, rest) ← parseValue fuel rest
      let (elems, rest) ← parseElems fuel rest
      return (.array (elem :: elems), rest)
    | 123 :: 125 :: rest => some (.object [], rest)
    | 123 :: 34 :: rest => do
      let (name, rest) ← parseString rest
      let 58 :: rest := rest | none
      let (value, rest) ← parseValue fuel rest
      let (members, rest) ← parseMembers fuel rest
      return (.object ((name, value) :: members), rest)
    | _ => parseInt text

def parseElems : ℕ → List UInt8 → Option (List (Json Empty) × List UInt8)
  | 0, _ => none
  | fuel + 1, text =>
    match text with
    | 93 :: rest => some ([], rest)
    | 44 :: rest => do
      let (elem, rest) ← parseValue fuel rest
      let (elems, rest) ← parseElems fuel rest
      return (elem :: elems, rest)
    | _ => none

def parseMembers : ℕ → List UInt8 → Option (List (List UInt8 × Json Empty) × List UInt8)
  | 0, _ => none
  | fuel + 1, text =>
    match text with
    | 125 :: rest => some ([], rest)
    | 44 :: 34 :: rest => do
      let (name, rest) ← parseString rest
      let 58 :: rest := rest | none
      let (value, rest) ← parseValue fuel rest
      let (members, rest) ← parseMembers fuel rest
      return ((name, value) :: members, rest)
    | _ => none

end

def parse (text : List UInt8) : Option (Json Empty) :=
  match parseValue text.length text with
  | some (json, []) => some json
  | _ => none

theorem hexValue_hexDigit : ∀ n < 16, hexValue (hexDigit n) = n := by decide

theorem isDigit_hexDigit : ∀ n < 10, isDigit (hexDigit n) = true := by decide

/-- The text goes on with something that is no digit. -/
def Stops (rest : List UInt8) : Prop := ∀ c ∈ rest.head?, isDigit c = false

theorem stops_cons {c : UInt8} (stop : isDigit c = false) (rest : List UInt8) : Stops (c :: rest) := by
  rintro d ⟨⟩
  exact stop

theorem writeNat_digits (n : ℕ) : ∀ c ∈ writeNat n, isDigit c = true := by
  intro c member
  obtain ⟨digit, inNumeral, rfl⟩ := List.mem_map.mp member
  exact isDigit_hexDigit digit (Radix.digit_lt (by omega) inNumeral)

theorem writeNat_ne_nil (n : ℕ) : writeNat n ≠ [] := by
  have length := Radix.numeral_length_ge 10 1 n
  intro empty
  rw [writeNat, List.map_eq_nil_iff] at empty
  rw [empty, List.length_nil] at length
  omega

theorem parseNat_writeNat (n : ℕ) {rest : List UInt8} (stops : Stops rest) :
    parseNat (writeNat n ++ rest) = some (n, rest) := by
  have takes : rest.takeWhile isDigit = [] ∧ rest.dropWhile isDigit = rest := by
    cases rest with
    | nil => exact ⟨rfl, rfl⟩
    | cons c rest => simp [stops c rfl]
  have digits : (writeNat n ++ rest).takeWhile isDigit = writeNat n := by
    rw [List.takeWhile_append_of_pos (writeNat_digits n), takes.1, List.append_nil]
  have values : (writeNat n).map hexValue = Radix.numeral 10 1 n := by
    rw [writeNat, List.map_map]
    refine List.map_congr_left (fun digit inNumeral => ?_) |>.trans (List.map_id _)
    exact hexValue_hexDigit digit ((Radix.digit_lt (by omega) inNumeral).trans (by omega))
  rw [parseNat, digits, List.dropWhile_append_of_pos (writeNat_digits n), takes.2]
  split
  · next empty => exact (writeNat_ne_nil n empty).elim
  · rw [values, Radix.value_numeral]

theorem parseInt_writeInt (n : JsonInt) {rest : List UInt8} (stops : Stops rest) :
    parseInt (writeInt n.val ++ rest) = some (.int n, rest) := by
  obtain ⟨n, lower, upper⟩ := n
  simp only [writeInt]
  split
  · next negative =>
    have value : -(n.natAbs : ℤ) = n := by omega
    rw [parseInt, List.cons_append, List.head?_cons, if_pos rfl, List.tail_cons, parseNat_writeNat _ stops]
    simp only [Option.map_some, value]
    rw [dif_pos ⟨lower, upper⟩]
  · next positive =>
    have value : (n.natAbs : ℤ) = n := by omega
    have parsed := parseNat_writeNat n.natAbs stops
    obtain ⟨c, others, digits⟩ := List.exists_cons_of_ne_nil (writeNat_ne_nil n.natAbs)
    have isDigit := writeNat_digits n.natAbs c (digits ▸ List.mem_cons_self ..)
    have notMinus : c ≠ 45 := by
      rintro rfl
      revert isDigit
      decide
    have first : (writeNat n.natAbs ++ rest).head? ≠ some 45 := by
      rw [digits]
      simpa using notMinus
    rw [parseInt, if_neg first, parsed]
    simp only [Option.map_some, value]
    rw [dif_pos ⟨lower, upper⟩]

theorem unescape_shortEscape {c letter : UInt8} (short : shortEscape c = some letter) :
    unescape letter = some c ∧ letter ≠ 117 := by
  rw [shortEscape] at short
  split_ifs at short with literal
  · rcases literal with rfl | rfl <;> cases short <;> decide
  all_goals
    subst c
    cases short
    decide

theorem hexDigits_value (c : UInt8) :
    UInt8.ofNat (16 * hexValue (hexDigit (c.toNat / 16)) + hexValue (hexDigit (c.toNat % 16))) = c := by
  have small := c.toNat_lt
  rw [hexValue_hexDigit _ (by omega), hexValue_hexDigit _ (by omega), Nat.div_add_mod, UInt8.ofNat_toNat]

theorem parseString_writeChar (c : UInt8) (rest : List UInt8) :
    parseString (writeChar c ++ rest) = (parseString rest).map fun (text, rest) => (c :: text, rest) := by
  rw [writeChar]
  split
  · next letter short =>
    obtain ⟨back, notU⟩ := unescape_shortEscape short
    rw [List.cons_append, List.cons_append, List.nil_append, parseString, back]
    rintro high low tail ⟨⟩
    exact (notU rfl).elim
  · next plain =>
    split
    · next control =>
      simp only [List.cons_append, List.nil_append, parseString, hexDigits_value]
    · next printed =>
      have other : c ≠ 34 ∧ c ≠ 92 := by
        constructor
        all_goals
          rintro rfl
          contradiction
      rw [List.cons_append, List.nil_append, parseString.eq_def]
      split
      · contradiction
      · next same => exact (other.1 (List.cons.inj same).1).elim
      · next same => exact (other.2 (List.cons.inj same).1).elim
      · next same => exact (other.2 (List.cons.inj same).1).elim
      · next same =>
        cases same
        rfl

theorem parseString_writeString (text rest : List UInt8) :
    parseString (writeString text ++ rest) = some (text, rest) := by
  induction text with
  | nil => rfl
  | cons c text ih =>
    rw [writeString, List.append_assoc] at ih
    rw [writeString, List.flatMap_cons, List.append_assoc, List.append_assoc, parseString_writeChar, ih]
    rfl

/-- A number starts with a sign or a digit. -/
theorem writeInt_head (n : ℤ) : ∃ c rest, writeInt n = c :: rest ∧ (c = 45 ∨ isDigit c = true) := by
  rw [writeInt]
  split
  · exact ⟨45, _, rfl, .inl rfl⟩
  · obtain ⟨c, rest, digits⟩ := List.exists_cons_of_ne_nil (writeNat_ne_nil n.natAbs)
    exact ⟨c, rest, digits, .inr (writeNat_digits n.natAbs c (digits ▸ List.mem_cons_self ..))⟩

theorem parseValue_writeInt (n : JsonInt) (fuel : ℕ) {rest : List UInt8} (stops : Stops rest) :
    parseValue (fuel + 1) (writeInt n.val ++ rest) = some (.int n, rest) := by
  have parsed := parseInt_writeInt n stops
  obtain ⟨c, digits, text, first⟩ := writeInt_head n.val
  rw [text, List.cons_append] at parsed ⊢
  have literal : c ≠ 110 ∧ c ≠ 116 ∧ c ≠ 102 ∧ c ≠ 34 ∧ c ≠ 91 ∧ c ≠ 123 := by
    refine ⟨?_, ?_, ?_, ?_, ?_, ?_⟩
    all_goals
      rintro rfl
      revert first
      decide
  obtain ⟨notNull, notTrue, notFalse, notString, notArray, notObject⟩ := literal
  rw [parseValue.eq_def]
  simp only
  split
  · next same => exact (notNull (List.cons.inj same).1).elim
  · next same => exact (notTrue (List.cons.inj same).1).elim
  · next same => exact (notFalse (List.cons.inj same).1).elim
  · next same => exact (notString (List.cons.inj same).1).elim
  · next same => exact (notArray (List.cons.inj same).1).elim
  · next same => exact (notArray (List.cons.inj same).1).elim
  · next same => exact (notObject (List.cons.inj same).1).elim
  · next same => exact (notObject (List.cons.inj same).1).elim
  · exact parsed

/-- A value does not start as the end of an array. -/
theorem write_head (json : Json Empty) : ∃ c rest, write json = c :: rest ∧ c ≠ 93 := by
  cases json with
  | null => exact ⟨_, _, rfl, by decide⟩
  | bool b => cases b <;> exact ⟨_, _, rfl, by decide⟩
  | int n =>
    obtain ⟨c, rest, text, first⟩ := writeInt_head n.val
    refine ⟨c, rest, by rw [write, text], ?_⟩
    rintro rfl
    revert first
    decide
  | double d => exact d.elim
  | string text => exact ⟨_, _, rfl, by decide⟩
  | array elems => cases elems <;> exact ⟨_, _, rfl, by decide⟩
  | object members => cases members <;> exact ⟨_, _, rfl, by decide⟩

theorem stops_writeElems (elems : List (Json Empty)) (rest : List UInt8) : Stops (writeElems elems ++ rest) := by
  cases elems <;> exact stops_cons (by decide) _

theorem stops_writeMembers (members : List (List UInt8 × Json Empty)) (rest : List UInt8) :
    Stops (writeMembers members ++ rest) := by
  cases members <;> exact stops_cons (by decide) _

/-- With the fuel, values whose text is no longer are read back and what follows is left. -/
def ReadsValues (fuel : ℕ) : Prop :=
  ∀ json : Json Empty, (write json).length ≤ fuel → ∀ rest, Stops rest →
    parseValue fuel (write json ++ rest) = some (json, rest)

def ReadsElems (fuel : ℕ) : Prop :=
  ∀ elems : List (Json Empty), (writeElems elems).length ≤ fuel → ∀ rest,
    parseElems fuel (writeElems elems ++ rest) = some (elems, rest)

def ReadsMembers (fuel : ℕ) : Prop :=
  ∀ members : List (List UInt8 × Json Empty), (writeMembers members).length ≤ fuel → ∀ rest,
    parseMembers fuel (writeMembers members ++ rest) = some (members, rest)

variable {fuel : ℕ}

theorem readsElems_succ (values : ReadsValues fuel) (tail : ReadsElems fuel) : ReadsElems (fuel + 1) := by
  intro elems enough rest
  cases elems with
  | nil => rfl
  | cons elem elems =>
    simp only [writeElems, List.length_cons, List.length_append] at enough
    have first := values elem (by omega) _ (stops_writeElems elems rest)
    have others := tail elems (by omega) rest
    rw [writeElems, List.cons_append, List.append_assoc, parseElems, first]
    simp only [Option.bind_eq_bind, Option.bind_some, others]
    rfl

theorem readsMembers_succ (values : ReadsValues fuel) (tail : ReadsMembers fuel) : ReadsMembers (fuel + 1) := by
  intro members enough rest
  cases members with
  | nil => rfl
  | cons member members =>
    obtain ⟨name, value⟩ := member
    simp only [writeMembers, List.length_cons, List.length_append] at enough
    have first := values value (by omega) _ (stops_writeMembers members rest)
    have others := tail members (by omega) rest
    simp only [writeMembers, List.cons_append, List.append_assoc, parseMembers, parseString_writeString,
      Option.bind_eq_bind, Option.bind_some, first, others]
    rfl

theorem readsValues_succ (values : ReadsValues fuel) (elems : ReadsElems fuel) (members : ReadsMembers fuel) :
    ReadsValues (fuel + 1) := by
  intro json enough rest stops
  match json with
  | .null => rfl
  | .bool true => rfl
  | .bool false => rfl
  | .int n =>
    rw [write]
    exact parseValue_writeInt n fuel stops
  | .string text =>
    rw [write, List.cons_append, parseValue, parseString_writeString]
    rfl
  | .array [] => rfl
  | .array (elem :: tail) =>
    simp only [write, List.length_cons, List.length_append] at enough
    have first := values elem (by omega) _ (stops_writeElems tail rest)
    have others := elems tail (by omega) rest
    obtain ⟨c, text, starts, notEnd⟩ := write_head elem
    rw [write, List.cons_append, List.append_assoc, parseValue]
    · simp only [Option.bind_eq_bind, Option.bind_some, first, others]
      rfl
    · intro following same
      rw [starts, List.cons_append] at same
      exact notEnd (List.cons.inj same).1
  | .object [] => rfl
  | .object ((name, value) :: tail) =>
    simp only [write, List.length_cons, List.length_append] at enough
    have first := values value (by omega) _ (stops_writeMembers tail rest)
    have others := members tail (by omega) rest
    simp only [write, List.cons_append, List.append_assoc, parseValue, parseString_writeString,
      Option.bind_eq_bind, Option.bind_some, first, others]
    rfl

/-- What the fuel suffices for, by induction on it: every value behind the first byte has less text. -/
theorem reads (fuel : ℕ) : ReadsValues fuel ∧ ReadsElems fuel ∧ ReadsMembers fuel := by
  induction fuel with
  | zero =>
    refine ⟨?_, ?_, ?_⟩
    · intro json enough
      obtain ⟨c, text, starts, -⟩ := write_head json
      rw [starts] at enough
      exact absurd enough (by simp)
    · intro elems enough
      cases elems <;> exact absurd enough (by simp [writeElems])
    · intro members enough
      cases members <;> exact absurd enough (by simp [writeMembers])
  | succ fuel ih =>
    obtain ⟨values, elems, members⟩ := ih
    exact ⟨readsValues_succ values elems members, readsElems_succ values elems,
      readsMembers_succ values members⟩

theorem parse_write (json : Json Empty) : parse (write json) = some json := by
  have back := (reads (write json).length).1 json le_rfl [] nofun
  rw [List.append_nil] at back
  rw [parse, back]

theorem writeNat_length_le_one_iff {n : ℕ} : (writeNat n).length ≤ 1 ↔ n < 10 := by
  rw [writeNat, List.length_map]
  constructor
  · intro short
    have small : ∀ digit ∈ Radix.numeral 10 1 n, digit < 10 := fun _ => Radix.digit_lt (by omega)
    have bound := Radix.value_lt small
    rw [Radix.value_numeral] at bound
    calc
      n < 10 ^ (Radix.numeral 10 1 n).length := bound
      _ ≤ 10 ^ 1 := Nat.pow_le_pow_right (by omega) short
  · intro digit
    exact (Radix.numeral_length (by omega) digit).le

/-- Only a digit is written with one character. -/
theorem write_length_le_one_iff {json : Json Empty} :
    (write json).length ≤ 1 ↔ ∃ n : JsonInt, json = .int n ∧ 0 ≤ n.val ∧ n.val < 10 := by
  have long (other : ∀ n, json ≠ .int n) : ¬ ∃ n : JsonInt, json = .int n ∧ 0 ≤ n.val ∧ n.val < 10 :=
    fun ⟨n, same, _⟩ => other n same
  match json with
  | .null => exact iff_of_false (by decide) (long (by simp))
  | .bool true => exact iff_of_false (by decide) (long (by simp))
  | .bool false => exact iff_of_false (by decide) (long (by simp))
  | .string text => exact iff_of_false (by simp [write, writeString]) (long (by simp))
  | .array [] => exact iff_of_false (by decide) (long (by simp))
  | .array (elem :: elems) =>
    obtain ⟨c, rest, starts, _⟩ := write_head elem
    exact iff_of_false (by simp [write, starts]) (long (by simp))
  | .object [] => exact iff_of_false (by decide) (long (by simp))
  | .object (member :: members) => exact iff_of_false (by simp [write]) (long (by simp))
  | .int n =>
    simp only [write, writeInt, Json.int.injEq, exists_eq_left']
    split
    · next negative =>
      have digits := List.length_pos_of_ne_nil (writeNat_ne_nil n.val.natAbs)
      rw [List.length_cons]
      omega
    · rw [writeNat_length_le_one_iff]
      omega

/-! No NUL is written. -/

theorem hexDigit_ne_zero : ∀ n < 16, hexDigit n ≠ 0 := by decide

theorem writeChar_ne_zero (c : UInt8) : 0 ∉ writeChar c := by
  rw [writeChar]
  split
  · next letter short =>
    have notZero : letter ≠ 0 := by
      rintro rfl
      exact absurd (unescape_shortEscape short).1 (by simp [unescape])
    simpa using notZero.symm
  · next plain =>
    split
    · have high := hexDigit_ne_zero (c.toNat / 16) (by have := c.toNat_lt; omega)
      have low := hexDigit_ne_zero (c.toNat % 16) (by omega)
      simp [high.symm, low.symm]
    · next printed =>
      have notZero : c ≠ 0 := by
        rintro rfl
        exact printed (by decide)
      simpa using notZero.symm

theorem writeString_ne_zero (text : List UInt8) : 0 ∉ writeString text := by
  simp only [writeString, List.mem_append, List.mem_flatMap, not_or, not_exists, not_and]
  exact ⟨fun c _ => writeChar_ne_zero c, by decide⟩

theorem writeInt_ne_zero (n : ℤ) : 0 ∉ writeInt n := by
  have digits (n : ℕ) : 0 ∉ writeNat n := by
    intro member
    have isDigit := writeNat_digits n 0 member
    revert isDigit
    decide
  rw [writeInt]
  split
  · exact List.not_mem_cons_of_ne_of_not_mem (by decide) (digits _)
  · exact digits _

mutual

theorem write_ne_zero : ∀ json : Json Empty, 0 ∉ write json
  | .null => by decide
  | .bool true => by decide
  | .bool false => by decide
  | .int n => writeInt_ne_zero n.val
  | .string text => by
    have := writeString_ne_zero text
    simpa [write] using this
  | .array [] => by decide
  | .array (elem :: elems) => by
    have first := write_ne_zero elem
    have others := writeElems_ne_zero elems
    simp [write, first, others]
  | .object [] => by decide
  | .object ((name, value) :: members) => by
    have title := writeString_ne_zero name
    have first := write_ne_zero value
    have others := writeMembers_ne_zero members
    simp [write, title, first, others]

theorem writeElems_ne_zero : ∀ elems : List (Json Empty), 0 ∉ writeElems elems
  | [] => by decide
  | elem :: elems => by
    have first := write_ne_zero elem
    have others := writeElems_ne_zero elems
    simp [writeElems, first, others]

theorem writeMembers_ne_zero : ∀ members : List (List UInt8 × Json Empty), 0 ∉ writeMembers members
  | [] => by decide
  | (name, value) :: members => by
    have title := writeString_ne_zero name
    have first := write_ne_zero value
    have others := writeMembers_ne_zero members
    simp [writeMembers, title, first, others]

end

end JsonText
