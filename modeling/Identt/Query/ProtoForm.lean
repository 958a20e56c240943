import Identt.Lib.OrderedMap
import Identt.Proto.Schema
import Identt.Store.ValidateService

/-! # Messages as forms (`ProtoForm`)

A form is a text of names and values. `urldecode` goes over it once, collecting characters until a `=` or a `&`
says what they were; `form2pb` sets the field of each name.
-/

namespace Identt.Query

open Store.ValidateService (toLower)

def percentSign : UInt8 := 37

def ampersand : UInt8 := 38

def plusSign : UInt8 := 43

def equalSign : UInt8 := 61

/-- `from_hex`, of any character; `char` wraps. -/
def fromHex (ch : UInt8) : UInt8 := if 48 ≤ ch ∧ ch ≤ 57 then ch - 48 else toLower ch - 97 + 10

/-- The variables of `urldecode`. -/
structure FormState where
  m : OrderedMap Bytes Bytes := .empty
  name : Bytes := []
  escaped : Bytes := []
  nameSet : Bool := false

namespace FormState

def push (s : FormState) (c : UInt8) : FormState := { s with escaped := s.escaped ++ [c] }

/-- What `=` does. -/
def setName (s : FormState) : FormState := { s with name := s.escaped, escaped := [], nameSet := true }

/-- What `&` does. -/
def endPiece (s : FormState) : FormState :=
  { s with m := if s.nameSet then s.m.put s.name s.escaped else s.m, escaped := [], nameSet := false }

/-- The loop of `urldecode`. The text ends in a NUL, which like any NUL stops an escape. -/
def decode (s : FormState) (text : Bytes) : FormState :=
  match text with
  | [] => s
  | c :: rest =>
    if c = percentSign then
      match rest with
      | first :: second :: later =>
        if first ≠ 0 ∧ second ≠ 0 then decode (s.push (fromHex first <<< 4 ||| fromHex second)) later
        else decode s (first :: second :: later)
      | ending => decode s ending
    else if c = plusSign then decode (s.push 32) rest
    else if c = equalSign then decode s.setName rest
    else if c = ampersand then decode s.endPiece rest
    else decode (s.push c) rest

/-- What is done with the last piece. -/
def finish (s : FormState) : OrderedMap Bytes Bytes :=
  if s.nameSet then s.m.put s.name s.escaped else s.m.put s.escaped []

end FormState

def urldecode (text : Bytes) : OrderedMap Bytes Bytes := (FormState.decode {} text).finish

/-- Characters that `urlencode` keeps. -/
def isKept (c : UInt8) : Bool :=
  (48 ≤ c && c ≤ 57) || (65 ≤ c && c ≤ 90) || (97 ≤ c && c ≤ 122) || c = 45 || c = 95 || c = 46 || c = 126

/-- A digit in upper case. -/
def upperDigit (digit : ℕ) : UInt8 := if digit < 10 then UInt8.ofNat (48 + digit) else UInt8.ofNat (55 + digit)

def urlencodeChar (c : UInt8) : Bytes :=
  if isKept c then [c] else [percentSign, upperDigit (c.toNat / 16), upperDigit (c.toNat % 16)]

def urlencode (value : Bytes) : Bytes := value.flatMap urlencodeChar

/-- The conversions of `boost::lexical_cast` from a text. -/
structure LexicalCast where
  int32 : Bytes → Option Int32
  uint32 : Bytes → Option UInt32
  int64 : Bytes → Option Int64
  uint64 : Bytes → Option UInt64
  bool : Bytes → Option Bool

/-- What `form2pb` throws: a `BadQueryException`, or what `boost::lexical_cast` throws. -/
inductive FormExn where
  | badQuery (err : String)
  | badLexicalCast
deriving DecidableEq, Repr

/-- The order in which an `unordered_map` hands out its entries. -/
structure HashOrder where
  entries : OrderedMap Bytes Bytes → List (Bytes × Bytes)
  perm : ∀ m, (entries m).Perm m.entries

variable {M : Type} (pool : DescriptorPool M) (cast : LexicalCast)

/-- The value of a field from a text. -/
def castValue (type : FieldType M) (text : Bytes) : Except FormExn FieldValue :=
  let converted {α : Type} (value : Option α) (wrap : α → FieldValue) : Except FormExn FieldValue :=
    match value with
    | some a => .ok (wrap a)
    | none => .error .badLexicalCast
  match type with
  | .int32 => converted (cast.int32 text) .int32
  | .uint32 => converted (cast.uint32 text) .uint32
  | .int64 => converted (cast.int64 text) .int64
  | .uint64 => converted (cast.uint64 text) .uint64
  | .bool => converted (cast.bool text) .bool
  | .string | .bytes => .ok (.string text)
  | .enum _ => converted (cast.int32 text) .enum
  | .message _ => .error (.badQuery "pb object message field not supported in form")

/-- One round of the loop of `form2pb`. -/
def setNamed (m : M) (msg : Message) (entry : Bytes × Bytes) : Except FormExn Message :=
  match pool.findField m (cString entry.1) with
  | none => .ok msg
  | some field =>
    if field.repeated then .error (.badQuery "pb object repeated field not supported in form")
    else do return msg.setField field (← castValue cast field.type entry.2)

def form2pb (order : HashOrder) (m : M) (form : Bytes) (msg : Message) : Except FormExn Message :=
  (order.entries (urldecode form)).foldlM (setNamed pool cast m) msg

end Identt.Query
