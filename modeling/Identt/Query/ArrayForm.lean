import Identt.Query.ProtoJson

/-! # Messages as arrays (`ProtoJson`)

An array stands for a message, its elements for the fields in the order of their declaration. Reading it is reading
the object that gives the elements to the names of the fields, also where it fails halfway: both leave the message
as it was changed until then.
-/

namespace Identt.Query

/-- What changes a message and may fail. What was changed before it fails stays. -/
abbrev Decode := ExceptT JsonFailure (StateM Message)

namespace Decode

/-- Read a value that is no message. The message is not touched if the value cannot be read. -/
def ofValue (read : Message → Except JsonFailure Message) : Decode Unit := fun msg =>
  match read msg with
  | .ok msg => (.ok (), msg)
  | .error failure => (.error failure, msg)

variable {M : Type}

/-- Read the message of a field in its place, from which it is not taken back. -/
def inField (field : FieldDescriptor M) (read : Decode Unit) : Decode Unit := fun msg =>
  match read (msg.mutable field) with
  | (result, sub) => (result, msg.setField field (.message sub))

/-- The message, if nothing failed. -/
def result (read : Decode Unit) (msg : Message) : Except JsonFailure Message :=
  match read msg with
  | (.ok _, msg) => .ok msg
  | (.error failure, _) => .error failure

@[simp] theorem result_ofValue (read : Message → Except JsonFailure Message) : (ofValue read).result = read := by
  funext msg
  rw [result, ofValue]
  cases read msg <;> rfl

theorem result_inField (field : FieldDescriptor M) (read : Decode Unit) (msg : Message) :
    (inField field read).result msg =
      (read.result (msg.mutable field)).map fun sub => msg.setField field (.message sub) := by
  rw [result, inField, result]
  match read (msg.mutable field) with
  | (.ok _, sub) | (.error _, sub) => rfl

theorem result_bind (first second : Decode Unit) (msg : Message) :
    result (do first; second) msg = (first.result msg >>= second.result) := by
  rw [result, result]
  change (match (match first msg with
    | (answer, msg) => ExceptT.bindCont (fun _ => second) answer msg : Except JsonFailure Unit × Message) with
    | (.ok _, msg) => Except.ok msg
    | (.error failure, _) => .error failure) = _
  match first msg with
  | (.ok _, msg) | (.error _, msg) => rfl

end Decode

variable {D M : Type} (pool : DescriptorPool M)

mutual

def decodeField (field : FieldDescriptor M) (json : Json D) : Decode Unit :=
  match field.type with
  | .message m => .inField field (decodeJson m json)
  | _ => .ofValue (json2field pool field json)
termination_by (sizeOf json, 1)

/-- `parse_json`, with the message as it leaves it. -/
def decodeJson (m : M) (json : Json D) : Decode Unit :=
  match json with
  | .array elems =>
    if (pool.fields m).length < elems.length then throw (.invalidJson "Bad array exceeds pb object size")
    else decodeElems (pool.fields m) elems
  | .object members => decodeMembers m members
  | _ => throw (.invalidArg "")
termination_by (sizeOf json, 0)

def decodeSlot (field : FieldDescriptor M) (json : Json D) : Decode Unit :=
  match json with
  | .null => modify (Message.clearField field)
  | .array elems => if field.repeated then decodeAll field elems else decodeField field (.array elems)
  | json => if field.repeated then throw (.invalidJson "Not array") else decodeField field json
termination_by (sizeOf json, 2)

def decodeAll (field : FieldDescriptor M) (elems : List (Json D)) : Decode Unit :=
  match elems with
  | [] => pure ()
  | json :: rest => do
    decodeField field json
    decodeAll field rest
termination_by (sizeOf elems, 0)

def decodeMembers (m : M) (members : List (Bytes × Json D)) : Decode Unit :=
  match members with
  | [] => pure ()
  | (name, json) :: rest =>
    match pool.findField m (cString name) with
    | none => decodeMembers m rest
    | some field => do
      decodeSlot field json
      decodeMembers m rest
termination_by (sizeOf members, 0)

/-- The loop of `parse_json_array`. -/
def decodeElems (fields : List (FieldDescriptor M)) (elems : List (Json D)) : Decode Unit :=
  match fields, elems with
  | field :: fields, json :: rest => do
    decodeSlot field json
    decodeElems fields rest
  | _, _ => pure ()
termination_by (sizeOf elems, 0)

end

variable {pool}

mutual

theorem result_decodeField (field : FieldDescriptor M) (json : Json D) (msg : Message) :
    (decodeField pool field json).result msg = json2field pool field json msg := by
  cases type : field.type with
  | message m =>
    simp only [decodeField, json2field, type, Decode.result_inField]
    rw [result_decodeJson m json]
    cases parseJson pool m json (msg.mutable field) <;> rfl
  | int32 | uint32 | int64 | uint64 | bool | string | bytes | enum =>
    simp only [decodeField, type, Decode.result_ofValue]
termination_by (sizeOf json, 1)

/-- What is decoded without failure is what `parseJson` reads. -/
theorem result_decodeJson (m : M) (json : Json D) (msg : Message) :
    (decodeJson pool m json).result msg = parseJson pool m json msg := by
  match json with
  | .array elems =>
    rw [decodeJson, parseJson]
    split
    · rfl
    · exact result_decodeElems _ elems msg
  | .object members =>
    rw [decodeJson, parseJson]
    exact result_decodeMembers m members msg
  | .null | .bool _ | .int _ | .double _ | .string _ =>
    rw [decodeJson, parseJson]
    · rfl
    all_goals simp
termination_by (sizeOf json, 0)

theorem result_decodeSlot (field : FieldDescriptor M) (json : Json D) (msg : Message) :
    (decodeSlot pool field json).result msg = parseSlot pool field json msg := by
  match json with
  | .null =>
    rw [decodeSlot, parseSlot]
    rfl
  | .array elems =>
    rw [decodeSlot, parseSlot]
    split
    · exact result_decodeAll field elems msg
    · exact result_decodeField field (.array elems) msg
  | .bool _ | .int _ | .double _ | .string _ | .object _ =>
    rw [decodeSlot, parseSlot]
    · split
      · rfl
      · exact result_decodeField field _ msg
    all_goals simp
termination_by (sizeOf json, 2)

theorem result_decodeAll (field : FieldDescriptor M) (elems : List (Json D)) (msg : Message) :
    (decodeAll pool field elems).result msg = addElems pool field elems msg := by
  match elems with
  | [] =>
    rw [decodeAll, addElems]
    rfl
  | json :: rest =>
    rw [decodeAll, addElems, Decode.result_bind, result_decodeField field json msg]
    exact bind_congr fun msg => result_decodeAll field rest msg
termination_by (sizeOf elems, 0)

theorem result_decodeMembers (m : M) (members : List (Bytes × Json D)) (msg : Message) :
    (decodeMembers pool m members).result msg = parseMembers pool m members msg := by
  match members with
  | [] =>
    rw [decodeMembers, parseMembers]
    rfl
  | (name, json) :: rest =>
    rw [decodeMembers, parseMembers]
    cases pool.findField m (cString name) with
    | none => exact result_decodeMembers m rest msg
    | some field =>
      simp only [Decode.result_bind, result_decodeSlot field json msg]
      exact bind_congr fun msg => result_decodeMembers m rest msg
termination_by (sizeOf members, 0)

theorem result_decodeElems (fields : List (FieldDescriptor M)) (elems : List (Json D)) (msg : Message) :
    (decodeElems pool fields elems).result msg = parseElems pool fields elems msg := by
  match fields, elems with
  | [], _ | _ :: _, [] =>
    rw [decodeElems, parseElems]
    · rfl
    all_goals simp
  | field :: fields, json :: rest =>
    rw [decodeElems, parseElems, Decode.result_bind, result_decodeSlot field json msg]
    exact bind_congr fun msg => result_decodeElems fields rest msg
termination_by (sizeOf elems, 0)

end

section SpellOut

variable (pool)

mutual

def spellValue (field : FieldDescriptor M) (json : Json D) : Json D :=
  match field.type with
  | .message m => spellOut m json
  | _ => json
termination_by (sizeOf json, 1)

/-- A document with objects for the arrays that stand for messages, at every depth. An array with too many elements
stands for none. -/
def spellOut (m : M) (json : Json D) : Json D :=
  match json with
  | .array elems =>
    if (pool.fields m).length < elems.length then .array elems else .object (spellElems (pool.fields m) elems)
  | .object members => .object (spellMembers m members)
  | json => json
termination_by (sizeOf json, 0)

def spellSlot (field : FieldDescriptor M) (json : Json D) : Json D :=
  match json with
  | .array elems => if field.repeated then .array (spellAll field elems) else spellValue field (.array elems)
  | json => if field.repeated then json else spellValue field json
termination_by (sizeOf json, 2)

def spellAll (field : FieldDescriptor M) (elems : List (Json D)) : List (Json D) :=
  match elems with
  | [] => []
  | json :: rest => spellValue field json :: spellAll field rest
termination_by (sizeOf elems, 0)

def spellMembers (m : M) (members : List (Bytes × Json D)) : List (Bytes × Json D) :=
  match members with
  | [] => []
  | (name, json) :: rest =>
    match pool.findField m (cString name) with
    | none => (name, json) :: spellMembers m rest
    | some field => (name, spellSlot field json) :: spellMembers m rest
termination_by (sizeOf members, 0)

def spellElems (fields : List (FieldDescriptor M)) (elems : List (Json D)) : List (Bytes × Json D) :=
  match fields, elems with
  | field :: fields, json :: rest => (field.name, spellSlot field json) :: spellElems fields rest
  | _, _ => []
termination_by (sizeOf elems, 0)

end

end SpellOut

/-- The members that give values to the names of fields, as far as both go. -/
def named (fields : List (FieldDescriptor M)) (elems : List (Json D)) : List (Bytes × Json D) :=
  List.zipWith (fun field json => (field.name, json)) fields elems

theorem decodeSlot_of_single {field : FieldDescriptor M} (single : field.repeated = false) {json : Json D}
    (notNull : json ≠ .null) : decodeSlot pool field json = decodeField pool field json := by
  cases json with
  | null => contradiction
  | bool | int | double | string | array | object => simp [decodeSlot, single]

theorem spellSlot_of_single {field : FieldDescriptor M} (single : field.repeated = false) (json : Json D) :
    spellSlot pool field json = spellValue pool field json := by
  cases json <;> simp [spellSlot, single]

theorem spellValue_null (field : FieldDescriptor M) : spellValue (D := D) pool field .null = .null := by
  cases type : field.type <;> simp [spellValue, spellOut, type]

/-- Nothing becomes `null` by being spelled out. -/
theorem spellValue_ne_null (field : FieldDescriptor M) {json : Json D} (notNull : json ≠ .null) :
    spellValue pool field json ≠ .null := by
  cases type : field.type with
  | message m =>
    simp only [spellValue, type]
    cases json with
    | null => contradiction
    | array elems =>
      rw [spellOut]
      split <;> simp
    | bool | int | double | string | object => simp [spellOut]
  | int32 | uint32 | int64 | uint64 | bool | string | bytes | enum => simpa only [spellValue, type] using notNull

mutual

theorem decodeField_spellValue (field : FieldDescriptor M) (json : Json D) :
    decodeField pool field (spellValue pool field json) = decodeField pool field json := by
  cases type : field.type with
  | message m => simp only [decodeField, spellValue, type, decodeJson_spellOut m json]
  | int32 | uint32 | int64 | uint64 | bool | string | bytes | enum => simp only [spellValue, type]
termination_by (sizeOf json, 1)

/-- A document is decoded as it is when every message in it is spelled out. -/
theorem decodeJson_spellOut (m : M) (json : Json D) :
    decodeJson pool m (spellOut pool m json) = decodeJson pool m json := by
  match json with
  | .array elems =>
    rw [spellOut]
    split
    · rfl
    · next fits =>
      rw [decodeJson, decodeJson, if_neg fits]
      exact decodeMembers_spellElems (fun _ isField => isField) elems
  | .object members =>
    rw [spellOut, decodeJson, decodeJson]
    exact decodeMembers_spellMembers m members
  | .null | .bool _ | .int _ | .double _ | .string _ => simp only [spellOut]
termination_by (sizeOf json, 0)

theorem decodeSlot_spellSlot (field : FieldDescriptor M) (json : Json D) :
    decodeSlot pool field (spellSlot pool field json) = decodeSlot pool field json := by
  cases kind : field.repeated with
  | true =>
    match json with
    | .array elems => simp only [spellSlot, decodeSlot, kind, if_true, decodeAll_spellAll field elems]
    | .null | .bool _ | .int _ | .double _ | .string _ | .object _ => simp only [spellSlot, kind, if_true]
  | false =>
    rw [spellSlot_of_single kind]
    by_cases isNull : json = .null
    · rw [isNull, spellValue_null]
    · rw [decodeSlot_of_single kind isNull, decodeSlot_of_single kind (spellValue_ne_null field isNull)]
      exact decodeField_spellValue field json
termination_by (sizeOf json, 2)

theorem decodeAll_spellAll (field : FieldDescriptor M) (elems : List (Json D)) :
    decodeAll pool field (spellAll pool field elems) = decodeAll pool field elems := by
  match elems with
  | [] => rw [spellAll]
  | json :: rest =>
    rw [spellAll, decodeAll, decodeAll, decodeField_spellValue field json, decodeAll_spellAll field rest]
termination_by (sizeOf elems, 0)

theorem decodeMembers_spellMembers (m : M) (members : List (Bytes × Json D)) :
    decodeMembers pool m (spellMembers pool m members) = decodeMembers pool m members := by
  match members with
  | [] => rw [spellMembers]
  | (name, json) :: rest =>
    rw [spellMembers, decodeMembers]
    cases found : pool.findField m (cString name) with
    | none => simp only [decodeMembers, found, decodeMembers_spellMembers m rest]
    | some field =>
      simp only [decodeMembers, found, decodeSlot_spellSlot field json, decodeMembers_spellMembers m rest]
termination_by (sizeOf members, 0)

theorem decodeMembers_spellElems {m : M} {fields : List (FieldDescriptor M)}
    (areFields : ∀ field ∈ fields, field ∈ pool.fields m) (elems : List (Json D)) :
    decodeMembers pool m (spellElems pool fields elems) = decodeElems pool fields elems := by
  match fields, elems with
  | [], _ | _ :: _, [] => simp only [spellElems, decodeMembers, decodeElems]
  | field :: fields, json :: rest =>
    obtain ⟨isField, areFields⟩ := List.forall_mem_cons.mp areFields
    simp only [spellElems, decodeMembers, findField_cString isField, decodeElems, decodeSlot_spellSlot field json,
      decodeMembers_spellElems areFields rest]
termination_by (sizeOf elems, 0)

end

theorem spellMembers_named {m : M} {fields : List (FieldDescriptor M)}
    (areFields : ∀ field ∈ fields, field ∈ pool.fields m) (elems : List (Json D)) :
    spellMembers pool m (named fields elems) = spellElems pool fields elems := by
  induction fields generalizing elems with
  | nil => simp [named, spellMembers, spellElems]
  | cons field fields ih =>
    obtain ⟨isField, areFields⟩ := List.forall_mem_cons.mp areFields
    cases elems with
    | nil => simp [named, spellMembers, spellElems]
    | cons json rest =>
      have later := ih areFields rest
      rw [named] at later
      simp only [named, List.zipWith_cons_cons, spellMembers, spellElems, findField_cString isField, later]

/-- Members under the names of fields are decoded as the elements. -/
theorem decodeMembers_named {m : M} {fields : List (FieldDescriptor M)}
    (areFields : ∀ field ∈ fields, field ∈ pool.fields m) (elems : List (Json D)) :
    decodeMembers pool m (named fields elems) = decodeElems pool fields elems := by
  rw [← decodeMembers_spellMembers, spellMembers_named areFields, decodeMembers_spellElems areFields]

/-- An array is spelled out as the object of its elements is. -/
theorem spellOut_array {m : M} {elems : List (Json D)} (fits : elems.length ≤ (pool.fields m).length) :
    spellOut pool m (.array elems) = spellOut pool m (.object (named (pool.fields m) elems)) := by
  rw [spellOut, if_neg (not_lt.mpr fits), spellOut, spellMembers_named fun _ isField => isField]

/-- Texts whose documents are spelled out alike are read alike. -/
theorem json2pb_of_spellOut {codec : JsonCodec D} {m : M} {text other : Bytes} {json json' : Json D}
    (parsed : codec.parse (cString text) = .ok json) (parsed' : codec.parse (cString other) = .ok json')
    (same : spellOut pool m json = spellOut pool m json') (msg : Message) :
    json2pb pool codec m text msg = json2pb pool codec m other msg := by
  rw [json2pb, parsed, json2pb, parsed']
  change parseJson pool m json msg = parseJson pool m json' msg
  rw [← result_decodeJson, ← decodeJson_spellOut, same, decodeJson_spellOut, result_decodeJson]

/-- An array with at most as many elements as the message has fields is decoded as the object that gives its elements
to the names of the fields, in what is returned and in what the message becomes. A longer one is rejected and
leaves the message alone. So it is with every message in a document. -/
theorem decodeJson_array (m : MessageType) (msg : Message) :
    (∀ elems : List (Json D), decodeJson protoPool m (.array elems) msg =
      if (protoPool.fields m).length < elems.length then
        (.error (.invalidJson "Bad array exceeds pb object size"), msg)
      else decodeJson protoPool m (.object (named (protoPool.fields m) elems)) msg) ∧
    ∀ json : Json D, decodeJson protoPool m (spellOut protoPool m json) msg = decodeJson protoPool m json msg := by
  refine ⟨fun elems => ?_, fun json => by rw [decodeJson_spellOut]⟩
  rw [decodeJson]
  split
  · rfl
  · rw [decodeJson, decodeMembers_named fun _ isField => isField]

end Identt.Query
