import Mathlib.Data.List.Nodup
import Mathlib.Logic.Function.Basic

/-! # Messages by reflection

A pool of descriptors gives each message type its fields. A message assigns to the name of a field the list of
its values: all elements of a repeated field, and at most one value of any other, none while it is unset.
A field that is neither repeated nor a message is unset when it has the default of its type.
-/

/-- The types of fields, over the names of message types. An enumeration is the list of its declared values. -/
inductive FieldType (M : Type) where
  | int32 | uint32 | int64 | uint64 | bool | string | bytes
  | enum (values : List (List UInt8 × Int32))
  | message (type : M)

structure FieldDescriptor (M : Type) where
  name : List UInt8
  type : FieldType M
  repeated : Bool := false

/-- The fields of a message type are found by their names, which are C strings. -/
structure DescriptorPool (M : Type) where
  fields : M → List (FieldDescriptor M)
  nodup : ∀ m, ((fields m).map FieldDescriptor.name).Nodup
  plain : ∀ m, ∀ field ∈ fields m, 0 ∉ field.name

inductive FieldValue where
  | int32 (n : Int32)
  | uint32 (n : UInt32)
  | int64 (n : Int64)
  | uint64 (n : UInt64)
  | bool (b : Bool)
  | string (text : List UInt8)
  | enum (number : Int32)
  | message (msg : List UInt8 → List FieldValue)

abbrev Message := List UInt8 → List FieldValue

/-- The value of a field that is not set; a message that is set is never that. -/
def FieldValue.isDefault : FieldValue → Bool
  | int32 n => n = 0
  | uint32 n => n = 0
  | int64 n => n = 0
  | uint64 n => n = 0
  | bool b => !b
  | string text => text.isEmpty
  | enum number => number = 0
  | message _ => false

namespace Message

variable {M : Type}

def empty : Message := fun _ => []

/-- Add an element to a repeated field, or set another one. -/
def setField (field : FieldDescriptor M) (value : FieldValue) (msg : Message) : Message :=
  Function.update msg field.name
    (if field.repeated then msg field.name ++ [value] else if value.isDefault then [] else [value])

/-- The message with some fields set, or elements added, in turn. -/
def ofFields (values : List (FieldDescriptor M × FieldValue)) : Message :=
  values.foldl (fun msg (field, value) => msg.setField field value) empty

def clearField (field : FieldDescriptor M) (msg : Message) : Message := Function.update msg field.name []

/-- The message of a field to go on with: a new element of a repeated field, or the one that is set. -/
def mutable (field : FieldDescriptor M) (msg : Message) : Message :=
  match field.repeated, msg field.name with
  | false, .message sub :: _ => sub
  | _, _ => empty

/-! What the getters of a message give for the name of a field. -/

def stringOf (name : List UInt8) (msg : Message) : List UInt8 :=
  match msg name with
  | .string text :: _ => text
  | _ => []

def boolOf (name : List UInt8) (msg : Message) : Bool :=
  match msg name with
  | .bool b :: _ => b
  | _ => false

def int32Of (name : List UInt8) (msg : Message) : Int32 :=
  match msg name with
  | .int32 n :: _ => n
  | _ => 0

def uint64Of (name : List UInt8) (msg : Message) : UInt64 :=
  match msg name with
  | .uint64 n :: _ => n
  | _ => 0

def enumOf (name : List UInt8) (msg : Message) : Int32 :=
  match msg name with
  | .enum number :: _ => number
  | _ => 0

def messagesOf (name : List UInt8) (msg : Message) : List Message :=
  (msg name).filterMap fun value =>
    match value with
    | .message sub => some sub
    | _ => none

theorem stringOf_setField {field : FieldDescriptor M} (single : field.repeated = false) (text : List UInt8)
    (msg : Message) : stringOf field.name (msg.setField field (.string text)) = text := by
  rw [stringOf, setField, Function.update_self, single]
  cases text <;> rfl

theorem stringOf_setField_of_ne {field : FieldDescriptor M} {name : List UInt8} (other : name ≠ field.name)
    (value : FieldValue) (msg : Message) : stringOf name (msg.setField field value) = stringOf name msg := by
  rw [stringOf, setField, Function.update_of_ne other, stringOf]

/-- Elements are added to a repeated field in order. -/
theorem foldl_setField_repeated {field : FieldDescriptor M} (repeated : field.repeated = true)
    (values : List FieldValue) (msg : Message) :
    (values.map fun value => (field, value)).foldl (fun msg (field, value) => msg.setField field value) msg field.name =
      msg field.name ++ values := by
  induction values generalizing msg with
  | nil => simp
  | cons value rest ih =>
    rw [List.map_cons, List.foldl_cons, ih]
    simp [setField, repeated]

theorem mutable_of_unset {field : FieldDescriptor M} {msg : Message}
    (unset : field.repeated = false → msg field.name = []) : msg.mutable field = empty := by
  rw [mutable]
  split
  · next single set =>
    rw [unset single] at set
    contradiction
  · rfl

end Message

namespace DescriptorPool

variable {M : Type} (pool : DescriptorPool M)

/-- `FindFieldByName`. -/
def findField (m : M) (name : List UInt8) : Option (FieldDescriptor M) :=
  (pool.fields m).find? fun field => field.name = name

/-- Fields with one name are the same. -/
theorem field_unique {m : M} {field other : FieldDescriptor M} (isField : field ∈ pool.fields m)
    (isOther : other ∈ pool.fields m) (same : field.name = other.name) : field = other :=
  List.inj_on_of_nodup_map (pool.nodup m) isField isOther same

theorem findField_name {m : M} {field : FieldDescriptor M} (isField : field ∈ pool.fields m) :
    pool.findField m field.name = some field := by
  rw [findField]
  cases found : (pool.fields m).find? fun other => other.name = field.name with
  | none => simpa using List.find?_eq_none.mp found field isField
  | some other =>
    have sameName : other.name = field.name := by simpa using List.find?_some found
    rw [pool.field_unique (List.mem_of_find?_eq_some found) isField sameName]

/-- The values of a field type. A message has values of its fields only, and of those that are not repeated at
most one, which is not the default. -/
inductive IsValue : FieldType M → FieldValue → Prop
  | int32 (n : Int32) : IsValue .int32 (.int32 n)
  | uint32 (n : UInt32) : IsValue .uint32 (.uint32 n)
  | int64 (n : Int64) : IsValue .int64 (.int64 n)
  | uint64 (n : UInt64) : IsValue .uint64 (.uint64 n)
  | bool (b : Bool) : IsValue .bool (.bool b)
  | string (text : List UInt8) : IsValue .string (.string text)
  | bytes (text : List UInt8) : IsValue .bytes (.string text)
  | enum {values : List (List UInt8 × Int32)} {number : Int32} (declared : number ∈ values.map Prod.snd) :
      IsValue (.enum values) (.enum number)
  | message {m : M} {msg : Message} (named : ∀ name, msg name ≠ [] → ∃ field ∈ pool.fields m, field.name = name)
      (typed : ∀ field ∈ pool.fields m, ∀ value ∈ msg field.name, IsValue field.type value)
      (single : ∀ field ∈ pool.fields m, field.repeated = false → (msg field.name).length ≤ 1)
      (set : ∀ field ∈ pool.fields m, field.repeated = false → ∀ value ∈ msg field.name,
        value.isDefault = false) :
      IsValue (.message m) (.message msg)

/-- A message of a type. -/
def IsMessage (m : M) (msg : Message) : Prop := pool.IsValue (.message m) (.message msg)

/-- A message without any field set is one of every type. -/
theorem isMessage_empty (m : M) : pool.IsMessage m .empty :=
  .message (fun _ set => (set rfl).elim) (fun _ _ _ member => (List.not_mem_nil member).elim)
    (fun _ _ _ => Nat.zero_le _) fun _ _ _ _ member => (List.not_mem_nil member).elim

variable {pool}

/-- Setting a field keeps a message of its type. -/
theorem isMessage_setField {m : M} {msg : Message} (isMessage : pool.IsMessage m msg) {field : FieldDescriptor M}
    (isField : field ∈ pool.fields m) {value : FieldValue} (isValue : pool.IsValue field.type value) :
    pool.IsMessage m (msg.setField field value) := by
  cases isMessage with
  | message named typed single set =>
    have others {name : List UInt8} (differ : name ≠ field.name) : msg.setField field value name = msg name :=
      Function.update_of_ne differ _ _
    have here : msg.setField field value field.name = if field.repeated then msg field.name ++ [value]
        else if value.isDefault then [] else [value] := Function.update_self _ _ _
    refine .message ?named ?typed ?single ?set
    case named =>
      intro name isSet
      by_cases same : name = field.name
      · exact ⟨field, isField, same.symm⟩
      · exact named name (others same ▸ isSet)
    case typed =>
      intro other isOther v member
      by_cases same : other.name = field.name
      · obtain rfl := pool.field_unique isOther isField same
        rw [here] at member
        split_ifs at member
        · rcases List.mem_append.mp member with old | new
          · exact typed other isOther v old
          · exact List.mem_singleton.mp new ▸ isValue
        · exact absurd member List.not_mem_nil
        · exact List.mem_singleton.mp member ▸ isValue
      · exact typed other isOther v (others same ▸ member)
    case single =>
      intro other isOther kind
      by_cases same : other.name = field.name
      · obtain rfl := pool.field_unique isOther isField same
        rw [here, kind, if_neg Bool.false_ne_true]
        split_ifs <;> simp
      · rw [others same]
        exact single other isOther kind
    case set =>
      intro other isOther kind v member
      by_cases same : other.name = field.name
      · obtain rfl := pool.field_unique isOther isField same
        rw [here, kind, if_neg Bool.false_ne_true] at member
        split_ifs at member with isDefault
        · exact absurd member List.not_mem_nil
        · rw [List.mem_singleton.mp member]
          simpa using isDefault
      · exact set other isOther kind v (others same ▸ member)

end DescriptorPool
