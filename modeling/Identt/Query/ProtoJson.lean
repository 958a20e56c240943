import Identt.Lib.JsonText
import Identt.Proto.Schema
import Identt.Query.Bin2Ascii

/-! # Messages as JSON (`ProtoJson`)

A message becomes an object with a member for every field that is set, and for every repeated field; bytes are
written in base64. Reading goes through the members of an object, or the elements of an array in the order of the
fields. Reading gives back what was written.
-/

namespace Identt.Query

variable {D : Type}

/-- The `Writer` and the `Document::Parse` of the JSON library; the parser is given a C string and has a number
for what it cannot parse. -/
structure JsonCodec (D : Type) where
  write : Json D → Bytes
  parse : Bytes → Except ℕ (Json D)

def JsonCodec.RoundTrips (codec : JsonCodec D) : Prop :=
  ∀ json, codec.parse (cString (codec.write json)) = .ok json

theorem JsonCodec.RoundTrips.injective {codec : JsonCodec D} (roundTrips : codec.RoundTrips) {json other : Json D}
    (same : codec.write json = codec.write other) : json = other := by
  have parsed := roundTrips json
  rw [same, roundTrips] at parsed
  exact (Except.ok.inj parsed).symm

/-- A codec of documents without floating-point numbers, which calls every text that it cannot parse invalid. -/
def compactJson : JsonCodec Empty where
  write := JsonText.write
  parse text :=
    match JsonText.parse text with
    | some json => .ok json
    | none => .error 3

theorem compactJson_roundTrips : compactJson.RoundTrips := by
  intro json
  have plain : cString (JsonText.write json) = JsonText.write json := cString_of_ne_zero fun c member => by
    rintro rfl
    exact JsonText.write_ne_zero json member
  simp only [compactJson, plain, JsonText.parse_write]

/-- Why a message cannot be read: the code that is returned with the text in `err`, or an exception, from an
assertion of the JSON library or from the base64 decoder. -/
inductive JsonFailure where
  /-- `IDENTT_ERR_INVALID_ARG`. -/
  | invalidArg (err : String)
  /-- `IDENTT_ERR_INVALID_JSON`. -/
  | invalidJson (err : String)
  | thrown (e : Exn)
deriving DecidableEq, Repr

/-- What is added to `err` for a parse error, whose number goes in as a character. -/
def parseErr (number : ℕ) : String := String.singleton (Char.ofNat number)

variable {M : Type} (pool : DescriptorPool M)

/-- The member that `parse_msg` adds for a field, of the values that the field has as JSON. -/
def memberOf (field : FieldDescriptor M) (values : List (Json D)) : Option (Bytes × Json D) :=
  if field.repeated then some (field.name, .array values)
  else values.head?.map fun json => (field.name, json)

mutual

def field2json (type : FieldType M) (value : FieldValue) : Json D :=
  match value with
  | .int32 n => .int (.ofInt32 n)
  | .uint32 n => .int (.ofUInt32 n)
  | .int64 n => .int (.ofInt64 n)
  | .uint64 n => .int (.ofUInt64 n)
  | .bool b => .bool b
  | .string text =>
    match type with
    | .bytes => .string (b64Encode text)
    | _ => .string text
  | .enum number => .int (.ofInt32 number)
  | .message msg =>
    match type with
    | .message m =>
      .object ((pool.fields m).filterMap fun field => memberOf field (elems2json field.type (msg field.name)))
    | _ => .null

def elems2json (type : FieldType M) (values : List FieldValue) : List (Json D) :=
  match values with
  | [] => []
  | value :: rest => field2json type value :: elems2json type rest

end

/-- `parse_msg`. -/
def parseMsg (m : M) (msg : Message) : Json D := field2json pool (.message m) (.message msg)

/-- `GetInt` and its like, for numbers from `lo` up to below `hi`, after the test for a number. -/
def getNumber (lo hi : ℤ) : Json D → Except JsonFailure ℤ
  | .int n => if lo ≤ n.val ∧ n.val < hi then .ok n.val else .error (.thrown .badJson)
  | .double _ => .error (.thrown .badJson)
  | _ => .error (.invalidJson "Not a number")

def getBool : Json D → Except JsonFailure Bool
  | .bool b => .ok b
  | _ => .error (.invalidJson "Not a bool")

def getString : Json D → Except JsonFailure Bytes
  | .string text => .ok text
  | _ => .error (.invalidJson "Not a string")

def getBytes (json : Json D) : Except JsonFailure Bytes := do
  let text ← getString json
  match b64Decode text with
  | some text => return text
  | none => throw (.thrown (b64Failure text))

/-- The declared value of a number or a name. -/
def getEnum (values : List (Bytes × Int32)) (json : Json D) : Except JsonFailure Int32 :=
  match json with
  | .int _ | .double _ => do
    let number := Int32.ofInt (← getNumber (-2 ^ 31) (2 ^ 31) json)
    if number ∈ values.map Prod.snd then return number else throw (.invalidJson "Enum value not found")
  | .string text =>
    match values.lookup (cString text) with
    | some number => .ok number
    | none => .error (.invalidJson "Enum value not found")
  | _ => .error (.invalidJson "Not an integer or string")

mutual

def json2field (field : FieldDescriptor M) (json : Json D) (msg : Message) : Except JsonFailure Message :=
  match field.type with
  | .int32 => do return msg.setField field (.int32 (.ofInt (← getNumber (-2 ^ 31) (2 ^ 31) json)))
  | .uint32 => do return msg.setField field (.uint32 (.ofNat (← getNumber 0 (2 ^ 32) json).toNat))
  | .int64 => do return msg.setField field (.int64 (.ofInt (← getNumber (-2 ^ 63) (2 ^ 63) json)))
  | .uint64 => do return msg.setField field (.uint64 (.ofNat (← getNumber 0 (2 ^ 64) json).toNat))
  | .bool => do return msg.setField field (.bool (← getBool json))
  | .string => do return msg.setField field (.string (← getString json))
  | .bytes => do return msg.setField field (.string (← getBytes json))
  | .enum values => do return msg.setField field (.enum (← getEnum values json))
  | .message m => do return msg.setField field (.message (← parseJson m json (msg.mutable field)))
termination_by (sizeOf json, 1)

/-- `parse_json`. -/
def parseJson (m : M) (json : Json D) (msg : Message) : Except JsonFailure Message :=
  match json with
  | .array elems =>
    if (pool.fields m).length < elems.length then .error (.invalidJson "Bad array exceeds pb object size")
    else parseElems (pool.fields m) elems msg
  | .object members => parseMembers m members msg
  | _ => .error (.invalidArg "")
termination_by (sizeOf json, 0)

/-- One round of the loops of `parse_json` and `parse_json_array`. -/
def parseSlot (field : FieldDescriptor M) (json : Json D) (msg : Message) : Except JsonFailure Message :=
  match json with
  | .null => .ok (msg.clearField field)
  | .array elems => if field.repeated then addElems field elems msg else json2field field (.array elems) msg
  | json => if field.repeated then .error (.invalidJson "Not array") else json2field field json msg
termination_by (sizeOf json, 2)

/-- The loop over the elements of a repeated field. -/
def addElems (field : FieldDescriptor M) (elems : List (Json D)) (msg : Message) : Except JsonFailure Message :=
  match elems with
  | [] => .ok msg
  | json :: rest => do
    let msg ← json2field field json msg
    addElems field rest msg
termination_by (sizeOf elems, 0)

/-- The loop of `parse_json`. Members that are no fields are passed over. -/
def parseMembers (m : M) (members : List (Bytes × Json D)) (msg : Message) : Except JsonFailure Message :=
  match members with
  | [] => .ok msg
  | (name, json) :: rest =>
    match pool.findField m (cString name) with
    | none => parseMembers m rest msg
    | some field => do
      let msg ← parseSlot field json msg
      parseMembers m rest msg
termination_by (sizeOf members, 0)

/-- The loop of `parse_json_array`. -/
def parseElems (fields : List (FieldDescriptor M)) (elems : List (Json D)) (msg : Message) :
    Except JsonFailure Message :=
  match fields, elems with
  | field :: fields, json :: rest => do
    let msg ← parseSlot field json msg
    parseElems fields rest msg
  | _, _ => .ok msg
termination_by (sizeOf elems, 0)

end

def pb2json (codec : JsonCodec D) (m : M) (msg : Message) : Bytes := codec.write (parseMsg pool m msg)

def json2pb (codec : JsonCodec D) (m : M) (text : Bytes) (msg : Message) : Except JsonFailure Message :=
  match codec.parse (cString text) with
  | .ok json => parseJson pool m json msg
  | .error number => .error (.invalidArg (parseErr number))

variable {pool}

theorem getNumber_of_mem {lo hi : ℤ} {n : JsonInt} (lower : lo ≤ n.val) (upper : n.val < hi) :
    getNumber (D := D) lo hi (.int n) = .ok n.val := if_pos ⟨lower, upper⟩

/-! What the getters make of what is written for a value. -/

theorem getNumber_int32 (n : Int32) :
    getNumber (D := D) (-2 ^ 31) (2 ^ 31) (.int (.ofInt32 n)) = .ok n.toInt :=
  getNumber_of_mem n.le_toInt n.toInt_lt

theorem getNumber_uint32 (n : UInt32) :
    getNumber (D := D) 0 (2 ^ 32) (.int (.ofUInt32 n)) = .ok (n.toNat : ℤ) := by
  have upper := n.toNat_lt
  apply getNumber_of_mem <;> simp only [JsonInt.ofUInt32] <;> omega

theorem getNumber_int64 (n : Int64) :
    getNumber (D := D) (-2 ^ 63) (2 ^ 63) (.int (.ofInt64 n)) = .ok n.toInt :=
  getNumber_of_mem n.le_toInt n.toInt_lt

theorem getNumber_uint64 (n : UInt64) :
    getNumber (D := D) 0 (2 ^ 64) (.int (.ofUInt64 n)) = .ok (n.toNat : ℤ) := by
  have upper := n.toNat_lt
  apply getNumber_of_mem <;> simp only [JsonInt.ofUInt64] <;> omega

theorem getBytes_string (text : Bytes) : getBytes (D := D) (.string text) = match b64Decode text with
    | some text => .ok text
    | none => .error (.thrown (b64Failure text)) := rfl

theorem getBytes_encode (text : Bytes) : getBytes (D := D) (.string (b64Encode text)) = .ok text := by
  rw [getBytes_string, b64Decode_encode]

theorem getEnum_declared {values : List (Bytes × Int32)} {number : Int32}
    (declared : number ∈ values.map Prod.snd) : getEnum (D := D) values (.int (.ofInt32 number)) = .ok number := by
  simp only [getEnum, getNumber_int32]
  change (if Int32.ofInt number.toInt ∈ values.map Prod.snd then pure (Int32.ofInt number.toInt)
    else throw (JsonFailure.invalidJson "Enum value not found")) = _
  rw [Int32.ofInt_toInt, if_pos declared]
  rfl

theorem elems2json_eq_map (type : FieldType M) (values : List FieldValue) :
    elems2json (D := D) pool type values = values.map (field2json pool type) := by
  induction values with
  | nil => rw [elems2json, List.map_nil]
  | cons value rest ih => rw [elems2json, ih, List.map_cons]

/-- The object of a message. -/
theorem parseMsg_eq (m : M) (msg : Message) :
    parseMsg (D := D) pool m msg = .object ((pool.fields m).filterMap fun field =>
      memberOf field ((msg field.name).map (field2json pool field.type))) := by
  simp only [parseMsg, field2json, elems2json_eq_map]

theorem memberOf_fst {field : FieldDescriptor M} {values : List (Json D)} {member : Bytes × Json D}
    (written : memberOf field values = some member) : member.1 = field.name := by
  rw [memberOf] at written
  split at written
  · cases written
    rfl
  · obtain ⟨_, _, rfl⟩ := Option.map_eq_some_iff.mp written
    rfl

/-- The member of a field is found under its name. -/
theorem get?_members {fields : List (FieldDescriptor M)} (distinct : (fields.map FieldDescriptor.name).Nodup)
    (values : FieldDescriptor M → List (Json D)) {field : FieldDescriptor M} (isField : field ∈ fields) :
    (Json.object (fields.filterMap fun field => memberOf field (values field))).get? field.name =
      (memberOf field (values field)).map Prod.snd := by
  induction fields with
  | nil => exact (List.not_mem_nil isField).elim
  | cons head rest ih =>
    obtain ⟨fresh, distinct⟩ := List.nodup_cons.mp distinct
    cases written : memberOf head (values head) with
    | none =>
      simp only [List.filterMap_cons, written]
      rcases List.mem_cons.mp isField with rfl | isField
      · rw [written]
        refine Json.get?_of_absent fun member => fresh ?_
        obtain ⟨other, inRest, same⟩ := List.mem_map.mp member
        obtain ⟨field', isField', written'⟩ := List.mem_filterMap.mp inRest
        rw [← same, memberOf_fst written']
        exact List.mem_map_of_mem isField'
      · exact ih distinct isField
    | some member =>
      obtain ⟨name, json⟩ := member
      obtain rfl : name = head.name := memberOf_fst written
      simp only [List.filterMap_cons, written, Json.get?_object_cons]
      rcases List.mem_cons.mp isField with rfl | isField
      · rw [if_pos rfl, written, Option.map_some]
      · have differ : head.name ≠ field.name := fun same => fresh (same ▸ List.mem_map_of_mem isField)
        rw [if_neg differ, ih distinct isField]

theorem get?_parseMsg_repeated {m : M} {field : FieldDescriptor M} (isField : field ∈ pool.fields m)
    (repeated : field.repeated = true) (msg : Message) : (parseMsg (D := D) pool m msg).get? field.name =
      some (.array ((msg field.name).map (field2json pool field.type))) := by
  rw [parseMsg_eq, get?_members (pool.nodup m) _ isField, memberOf, if_pos repeated]
  rfl

/-- The texts of a message stand in its object. -/
theorem textOf_parseMsg {m : M} {field : FieldDescriptor M} (isField : field ∈ pool.fields m)
    (single : field.repeated = false) (isText : field.type = .string) (msg : Message) :
    (parseMsg (D := D) pool m msg).textOf field.name = msg.stringOf field.name := by
  rw [Json.textOf, parseMsg_eq, get?_members (pool.nodup m) _ isField, memberOf, isText, single, Message.stringOf]
  cases msg field.name with
  | nil => rfl
  | cons value rest => cases value <;> rfl

/-- A value is never written as `null`. -/
theorem field2json_ne_null {type : FieldType M} {value : FieldValue} (isValue : pool.IsValue type value) :
    field2json (D := D) pool type value ≠ .null := by
  cases isValue <;> simp [field2json]

theorem parseSlot_of_single {field : FieldDescriptor M} (single : field.repeated = false) {json : Json D}
    (notNull : json ≠ .null) (msg : Message) : parseSlot pool field json msg = json2field pool field json msg := by
  cases json with
  | null => contradiction
  | bool | int | double | string | array | object => simp [parseSlot, single]

/-- What is written for a value is read back into a field of its type. -/
def ReadsBack (D : Type) (pool : DescriptorPool M) (field : FieldDescriptor M) (value : FieldValue) : Prop :=
  ∀ msg : Message, (field.repeated = false → msg field.name = []) →
    json2field pool field (field2json (D := D) pool field.type value) msg = .ok (msg.setField field value)

/-- The elements of a repeated field are added in order. -/
theorem addElems_map {field : FieldDescriptor M} (repeated : field.repeated = true) {values : List FieldValue}
    (reads : ∀ value ∈ values, ReadsBack D pool field value) (msg : Message) :
    addElems pool field (values.map (field2json (D := D) pool field.type)) msg =
      .ok (Function.update msg field.name (msg field.name ++ values)) := by
  induction values generalizing msg with
  | nil => simp [addElems]
  | cons value rest ih =>
    have first := reads value (List.mem_cons_self ..) msg (fun single => by simp [repeated] at single)
    rw [List.map_cons, addElems, first]
    change addElems pool field _ (msg.setField field value) = _
    rw [ih fun other member => reads other (List.mem_cons_of_mem _ member)]
    simp [Message.setField, repeated]

/-- A field is found by its name, which is a C string. -/
theorem findField_cString {m : M} {field : FieldDescriptor M} (isField : field ∈ pool.fields m) :
    pool.findField m (cString field.name) = some field := by
  have name : cString field.name = field.name := cString_of_ne_zero fun c member => by
    rintro rfl
    exact pool.plain m field isField member
  rw [name, pool.findField_name isField]

/-- The member of a field restores its values. -/
theorem parseMembers_memberOf {m : M} {field : FieldDescriptor M} (isField : field ∈ pool.fields m)
    {values : List FieldValue} (isValue : ∀ value ∈ values, pool.IsValue field.type value)
    (reads : ∀ value ∈ values, ReadsBack D pool field value)
    (single : field.repeated = false → values.length ≤ 1 ∧ ∀ value ∈ values, value.isDefault = false)
    {msg : Message} (unset : msg field.name = []) (rest : List (Bytes × Json D)) :
    parseMembers pool m ((memberOf field (values.map (field2json pool field.type))).toList ++ rest) msg =
      parseMembers pool m rest (Function.update msg field.name values) := by
  cases kind : field.repeated with
  | true =>
    rw [memberOf, if_pos kind, Option.toList_some, List.singleton_append, parseMembers, findField_cString isField]
    simp only [parseSlot, kind, if_true, addElems_map kind reads, unset, List.nil_append]
    rfl
  | false =>
    obtain ⟨length, notDefault⟩ := single kind
    rw [memberOf, if_neg (by simp [kind])]
    match values, length with
    | [], _ =>
      have same : Function.update msg field.name [] = msg := by rw [← unset, Function.update_eq_self]
      rw [same]
      rfl
    | [value], _ =>
      have set : msg.setField field value = Function.update msg field.name [value] := by
        simp [Message.setField, kind, notDefault value (List.mem_singleton_self _)]
      rw [List.map_singleton, List.head?_cons, Option.map_some, Option.toList_some, List.singleton_append,
        parseMembers, findField_cString isField]
      simp only [parseSlot_of_single kind (field2json_ne_null (isValue value (List.mem_singleton_self _))),
        reads value (List.mem_singleton_self _) msg fun _ => unset, set]
      rfl

/-- Reading the members of some fields of a message sets these fields to what they were. -/
theorem parseMembers_filterMap {m : M} {original : Message} {fields : List (FieldDescriptor M)}
    (areFields : ∀ field ∈ fields, field ∈ pool.fields m) (distinct : (fields.map FieldDescriptor.name).Nodup)
    (isValue : ∀ field ∈ fields, ∀ value ∈ original field.name, pool.IsValue field.type value)
    (reads : ∀ field ∈ fields, ∀ value ∈ original field.name, ReadsBack D pool field value)
    (single : ∀ field ∈ fields, field.repeated = false →
      (original field.name).length ≤ 1 ∧ ∀ value ∈ original field.name, value.isDefault = false)
    {msg : Message} (unset : ∀ field ∈ fields, msg field.name = []) :
    parseMembers pool m (fields.filterMap fun field =>
        memberOf field ((original field.name).map (field2json (D := D) pool field.type))) msg =
      .ok fun name => if name ∈ fields.map FieldDescriptor.name then original name else msg name := by
  induction fields generalizing msg with
  | nil => simp [parseMembers]
  | cons field rest ih =>
    obtain ⟨notInRest, distinctRest⟩ := List.nodup_cons.mp distinct
    obtain ⟨isField, areFields⟩ := List.forall_mem_cons.mp areFields
    obtain ⟨isValueHead, isValue⟩ := List.forall_mem_cons.mp isValue
    obtain ⟨readsHead, reads⟩ := List.forall_mem_cons.mp reads
    obtain ⟨singleHead, single⟩ := List.forall_mem_cons.mp single
    obtain ⟨unsetHead, unset⟩ := List.forall_mem_cons.mp unset
    have split : (field :: rest).filterMap (fun field =>
        memberOf field ((original field.name).map (field2json (D := D) pool field.type))) =
        (memberOf field ((original field.name).map (field2json pool field.type))).toList ++
          rest.filterMap fun field => memberOf field ((original field.name).map (field2json pool field.type)) := by
      rw [List.filterMap_cons]
      cases memberOf field ((original field.name).map (field2json (D := D) pool field.type)) <;> rfl
    have unsetRest : ∀ other ∈ rest,
        Function.update msg field.name (original field.name) other.name = [] := by
      intro other member
      have differ : other.name ≠ field.name := fun same => notInRest (same ▸ List.mem_map_of_mem member)
      rw [Function.update_of_ne differ, unset other member]
    rw [split, parseMembers_memberOf isField isValueHead readsHead singleHead unsetHead,
      ih areFields distinctRest isValue reads single unsetRest]
    congr 1
    funext name
    by_cases here : name = field.name
    · subst here
      simp
    · simp [here]

/-- A message is read back from its object. -/
theorem parseJson_parseMsg_of_readsBack {m : M} {msg : Message} (isMessage : pool.IsMessage m msg)
    (reads : ∀ field ∈ pool.fields m, ∀ value ∈ msg field.name, ReadsBack D pool field value) :
    parseJson pool m (parseMsg (D := D) pool m msg) .empty = .ok msg := by
  cases isMessage with
  | message named typed single set =>
    rw [parseMsg_eq, parseJson, parseMembers_filterMap (fun _ isField => isField) (pool.nodup m) typed reads
      (fun field isField kind => ⟨single field isField kind, set field isField kind⟩) (fun _ _ => rfl)]
    congr 1
    funext name
    split
    · rfl
    · next other =>
      by_contra differ
      obtain ⟨field, isField, rfl⟩ := named name (Ne.symm differ)
      exact other (List.mem_map_of_mem isField)

/-- Every value of a field's type is read back. -/
theorem readsBack {type : FieldType M} {value : FieldValue} (isValue : pool.IsValue type value)
    (field : FieldDescriptor M) (isType : field.type = type) : ReadsBack D pool field value := by
  induction isValue generalizing field with
  | int32 n =>
    intro msg _
    rw [json2field, isType, field2json, getNumber_int32]
    change Except.ok (msg.setField field (.int32 (.ofInt n.toInt))) = _
    rw [Int32.ofInt_toInt]
  | uint32 n =>
    intro msg _
    rw [json2field, isType, field2json, getNumber_uint32]
    change Except.ok (msg.setField field (.uint32 (.ofNat (n.toNat : ℤ).toNat))) = _
    rw [Int.toNat_natCast, UInt32.ofNat_toNat]
  | int64 n =>
    intro msg _
    rw [json2field, isType, field2json, getNumber_int64]
    change Except.ok (msg.setField field (.int64 (.ofInt n.toInt))) = _
    rw [Int64.ofInt_toInt]
  | uint64 n =>
    intro msg _
    rw [json2field, isType, field2json, getNumber_uint64]
    change Except.ok (msg.setField field (.uint64 (.ofNat (n.toNat : ℤ).toNat))) = _
    rw [Int.toNat_natCast, UInt64.ofNat_toNat]
  | bool b =>
    intro msg _
    rw [json2field, isType, field2json]
    rfl
  | string text =>
    intro msg _
    rw [json2field, isType]
    simp only [field2json]
    rfl
  | bytes text =>
    intro msg _
    rw [json2field, isType]
    simp only [field2json, getBytes_encode]
    rfl
  | enum declared =>
    intro msg _
    rw [json2field, isType]
    simp only [field2json, getEnum_declared declared]
    rfl
  | @message m sub named typed single set ih =>
    intro msg unset
    have whole := parseJson_parseMsg_of_readsBack (D := D) (.message named typed single set)
      fun other isField value member => ih other isField value member other rfl
    rw [json2field, isType, Message.mutable_of_unset unset]
    change (do return msg.setField field (.message (← parseJson pool m (parseMsg pool m sub) .empty))) = _
    rw [whole]
    rfl

/-- A message is read back from its object. -/
theorem parseJson_parseMsg {m : M} {msg : Message} (isMessage : pool.IsMessage m msg) :
    parseJson pool m (parseMsg (D := D) pool m msg) .empty = .ok msg := by
  refine parseJson_parseMsg_of_readsBack isMessage ?_
  cases isMessage with
  | message named typed single set =>
    exact fun field isField value member => readsBack (typed field isField value member) field rfl

/-- `null` is no message. -/
theorem json2pb_null {codec : JsonCodec D} (roundTrips : codec.RoundTrips) (m : M) (msg : Message) :
    json2pb pool codec m (codec.write .null) msg = .error (.invalidArg "") := by
  rw [json2pb, roundTrips]
  simp [parseJson]

/-- Every message of the `.proto` files is read back from its JSON text as it was, whatever sub-messages it has. -/
theorem json2pb_pb2json {codec : JsonCodec D} (roundTrips : codec.RoundTrips) {m : MessageType} {msg : Message}
    (isMessage : protoPool.IsMessage m msg) :
    json2pb protoPool codec m (pb2json protoPool codec m msg) .empty = .ok msg := by
  rw [json2pb, pb2json, roundTrips]
  exact parseJson_parseMsg isMessage

/-- A batch with one notification, whose payload is no text. -/
def exampleBatch : Message :=
  (Message.empty.setField (MessageType.one .uint64 "lastid") (.uint64 7)).setField
    (MessageType.many (.message .mpayloadT) "payload") (.message exampleEntry)
where
  exampleEntry : Message :=
    (Message.empty.setField (MessageType.one (.enum actTypeEValues) "actkey") (.enum 14)).setField
      (MessageType.one (.message .mpThreeT) "mpthree")
      (.message (Message.empty.setField (MessageType.one .bytes "payload") (.string [0, 255])))

theorem exampleBatch_isMessage : protoPool.IsMessage .mailQueryT exampleBatch := by
  have binding : protoPool.IsMessage .mpThreeT
      (Message.empty.setField (MessageType.one .bytes "payload") (.string [0, 255])) :=
    DescriptorPool.isMessage_setField (protoPool.isMessage_empty _) (by simp [protoPool, MessageType.fields])
      (.bytes _)
  have entry : protoPool.IsMessage .mpayloadT exampleBatch.exampleEntry :=
    DescriptorPool.isMessage_setField
      (DescriptorPool.isMessage_setField (protoPool.isMessage_empty _) (by simp [protoPool, MessageType.fields])
        (.enum (by decide)))
      (by simp [protoPool, MessageType.fields]) binding
  exact DescriptorPool.isMessage_setField
    (DescriptorPool.isMessage_setField (protoPool.isMessage_empty _) (by simp [protoPool, MessageType.fields])
      (.uint64 _))
    (by simp [protoPool, MessageType.fields]) entry

theorem json2pb_pb2json_batch :
    json2pb protoPool compactJson .mailQueryT (pb2json protoPool compactJson .mailQueryT exampleBatch) .empty =
      .ok exampleBatch :=
  json2pb_pb2json compactJson_roundTrips exampleBatch_isMessage

end Identt.Query
