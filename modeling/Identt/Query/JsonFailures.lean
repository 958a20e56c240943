import Identt.Query.ProtoJson

/-! # How reading a message fails (`ProtoJson`)

Reading a document makes one test after the other and ends with the first that fails. A value of the wrong kind is
reported by a code. A number that is none of the field's, and a text that is no base64, get past the test of their
kind and throw.
-/

namespace Identt.Query

section FirstHit

variable {α β : Type*} {f : α → Option β}

/-- What is hit first is never bad exactly if something good comes before everything bad. -/
theorem findSome?_ne_iff (bad : β → Prop) (l : List α) : (∀ b, l.findSome? f = some b → ¬ bad b) ↔
    ∀ front a back, l = front ++ a :: back → (∃ b, f a = some b ∧ bad b) →
      ∃ earlier ∈ front, ∃ b, f earlier = some b ∧ ¬ bad b := by
  constructor
  · rintro good front a back rfl ⟨b, hit, isBad⟩
    cases first : front.findSome? f with
    | none =>
      have here : (front ++ a :: back).findSome? f = some b := by
        rw [List.findSome?_append, first, Option.none_or, List.findSome?_cons, hit]
      exact (good b here isBad).elim
    | some b' =>
      have here : (front ++ a :: back).findSome? f = some b' := by
        rw [List.findSome?_append, first, Option.some_or]
      obtain ⟨earlier, member, hit'⟩ := List.exists_of_findSome?_eq_some first
      exact ⟨earlier, member, b', hit', good b' here⟩
  · intro before b here isBad
    obtain ⟨front, a, back, split, hit, quiet⟩ := List.findSome?_eq_some_iff.mp here
    obtain ⟨earlier, member, b', hit', _⟩ := before front a back split ⟨b, hit, isBad⟩
    rw [quiet earlier member] at hit'
    contradiction

end FirstHit

variable {D M : Type}

/-- A test that is made of a value when a document is read. -/
inductive Visit (M D : Type) where
  /-- For a field that is no message. -/
  | value (type : FieldType M) (json : Json D)
  /-- For a repeated field. -/
  | list (json : Json D)
  | message (m : M) (json : Json D)

section Visits

variable (pool : DescriptorPool M)

mutual

def visitField (field : FieldDescriptor M) (json : Json D) : List (Visit M D) :=
  match field.type with
  | .message m => visitJson m json
  | type => [.value type json]
termination_by (sizeOf json, 1)

/-- The tests that are made of a document for a message, in order, as long as none fails. -/
def visitJson (m : M) (json : Json D) : List (Visit M D) :=
  match json with
  | .array elems =>
    .message m (.array elems) ::
      if (pool.fields m).length < elems.length then [] else visitElems (pool.fields m) elems
  | .object members => .message m (.object members) :: visitMembers m members
  | json => [.message m json]
termination_by (sizeOf json, 0)

def visitSlot (field : FieldDescriptor M) (json : Json D) : List (Visit M D) :=
  match json with
  | .null => []
  | .array elems =>
    if field.repeated then .list (.array elems) :: visitAll field elems else visitField field (.array elems)
  | json => if field.repeated then [.list json] else visitField field json
termination_by (sizeOf json, 2)

def visitAll (field : FieldDescriptor M) (elems : List (Json D)) : List (Visit M D) :=
  match elems with
  | [] => []
  | json :: rest => visitField field json ++ visitAll field rest
termination_by (sizeOf elems, 0)

def visitMembers (m : M) (members : List (Bytes × Json D)) : List (Visit M D) :=
  match members with
  | [] => []
  | (name, json) :: rest =>
    match pool.findField m (cString name) with
    | none => visitMembers m rest
    | some field => visitSlot field json ++ visitMembers m rest
termination_by (sizeOf members, 0)

def visitElems (fields : List (FieldDescriptor M)) (elems : List (Json D)) : List (Visit M D) :=
  match fields, elems with
  | field :: fields, json :: rest => visitSlot field json ++ visitElems fields rest
  | _, _ => []
termination_by (sizeOf elems, 0)

end

/-- The failure of what fails. -/
def failureOf {α : Type} : Except JsonFailure α → Option JsonFailure
  | .ok _ => none
  | .error failure => some failure

/-- How a test fails. -/
def Visit.failure : Visit M D → Option JsonFailure
  | .value .int32 json => failureOf (getNumber (-2 ^ 31) (2 ^ 31) json)
  | .value .uint32 json => failureOf (getNumber 0 (2 ^ 32) json)
  | .value .int64 json => failureOf (getNumber (-2 ^ 63) (2 ^ 63) json)
  | .value .uint64 json => failureOf (getNumber 0 (2 ^ 64) json)
  | .value .bool json => failureOf (getBool json)
  | .value .string json => failureOf (getString json)
  | .value .bytes json => failureOf (getBytes json)
  | .value (.enum values) json => failureOf (getEnum values json)
  | .value (.message _) _ => none
  | .list (.array _) => none
  | .list _ => some (.invalidJson "Not array")
  | .message m (.array elems) =>
    if (pool.fields m).length < elems.length then some (.invalidJson "Bad array exceeds pb object size") else none
  | .message _ (.object _) => none
  | .message _ _ => some (.invalidArg "")

end Visits

variable {pool : DescriptorPool M}

theorem failureOf_bind {α β : Type} (first : Except JsonFailure α) (next : α → Except JsonFailure β) :
    failureOf (first >>= next) = match first with
      | .ok a => failureOf (next a)
      | .error failure => some failure := by
  cases first <;> rfl

theorem failureOf_bind_pure {α β : Type} (first : Except JsonFailure α) (next : α → β) :
    failureOf (first >>= fun a => pure (next a)) = failureOf first := by
  cases first <;> rfl

mutual

theorem failureOf_json2field (field : FieldDescriptor M) (json : Json D) (msg : Message) :
    failureOf (json2field pool field json msg) = (visitField pool field json).findSome? (Visit.failure pool) := by
  cases type : field.type with
  | message m =>
    simp only [json2field, visitField, type, failureOf_bind_pure]
    exact failureOf_parseJson m json _
  | int32 | uint32 | int64 | uint64 | bool | string | bytes | enum =>
    simp only [json2field, visitField, type, failureOf_bind_pure, List.findSome?_singleton, Visit.failure]
termination_by (sizeOf json, 1)

/-- Reading fails as the first test that fails. -/
theorem failureOf_parseJson (m : M) (json : Json D) (msg : Message) :
    failureOf (parseJson pool m json msg) = (visitJson pool m json).findSome? (Visit.failure pool) := by
  match json with
  | .array elems =>
    rw [parseJson, visitJson, List.findSome?_cons, Visit.failure]
    split
    · rfl
    · exact failureOf_parseElems _ elems msg
  | .object members =>
    rw [parseJson, visitJson, List.findSome?_cons, Visit.failure]
    exact failureOf_parseMembers m members msg
  | .null | .bool _ | .int _ | .double _ | .string _ =>
    rw [parseJson, visitJson]
    · rfl
    all_goals simp
termination_by (sizeOf json, 0)

theorem failureOf_parseSlot (field : FieldDescriptor M) (json : Json D) (msg : Message) :
    failureOf (parseSlot pool field json msg) = (visitSlot pool field json).findSome? (Visit.failure pool) := by
  match json with
  | .null =>
    rw [parseSlot, visitSlot]
    rfl
  | .array elems =>
    rw [parseSlot, visitSlot]
    split
    · exact failureOf_addElems field elems msg
    · exact failureOf_json2field field (.array elems) msg
  | .bool _ | .int _ | .double _ | .string _ | .object _ =>
    rw [parseSlot, visitSlot]
    · split
      · rfl
      · exact failureOf_json2field field _ msg
    all_goals simp
termination_by (sizeOf json, 2)

theorem failureOf_addElems (field : FieldDescriptor M) (elems : List (Json D)) (msg : Message) :
    failureOf (addElems pool field elems msg) = (visitAll pool field elems).findSome? (Visit.failure pool) := by
  match elems with
  | [] =>
    rw [addElems, visitAll]
    rfl
  | json :: rest =>
    rw [addElems, visitAll, List.findSome?_append, ← failureOf_json2field field json msg, failureOf_bind]
    cases json2field pool field json msg with
    | ok msg => exact failureOf_addElems field rest msg
    | error failure => rfl
termination_by (sizeOf elems, 0)

theorem failureOf_parseMembers (m : M) (members : List (Bytes × Json D)) (msg : Message) :
    failureOf (parseMembers pool m members msg) =
      (visitMembers pool m members).findSome? (Visit.failure pool) := by
  match members with
  | [] =>
    rw [parseMembers, visitMembers]
    rfl
  | (name, json) :: rest =>
    rw [parseMembers, visitMembers]
    cases pool.findField m (cString name) with
    | none => exact failureOf_parseMembers m rest msg
    | some field =>
      simp only [List.findSome?_append, ← failureOf_parseSlot field json msg, failureOf_bind]
      cases parseSlot pool field json msg with
      | ok msg => exact failureOf_parseMembers m rest msg
      | error failure => rfl
termination_by (sizeOf members, 0)

theorem failureOf_parseElems (fields : List (FieldDescriptor M)) (elems : List (Json D)) (msg : Message) :
    failureOf (parseElems pool fields elems msg) =
      (visitElems pool fields elems).findSome? (Visit.failure pool) := by
  match fields, elems with
  | [], _ | _ :: _, [] =>
    rw [parseElems, visitElems]
    · rfl
    all_goals simp
  | field :: fields, json :: rest =>
    rw [parseElems, visitElems, List.findSome?_append, ← failureOf_parseSlot field json msg, failureOf_bind]
    cases parseSlot pool field json msg with
    | ok msg => exact failureOf_parseElems fields rest msg
    | error failure => rfl
termination_by (sizeOf elems, 0)

end

/-- The number that `json2pb` returns; there is none for an exception. -/
def JsonFailure.code : JsonFailure → Option ℤ
  | .invalidArg _ => some (-1)
  | .invalidJson _ => some (-4)
  | .thrown _ => none

def returnCode : Except JsonFailure Message → Option ℤ
  | .ok _ => some 0
  | .error failure => failure.code

/-- Numbers that are no integer from `lo` up to below `hi`. -/
def NoInteger (lo hi : ℤ) : Json D → Prop
  | .int n => ¬ (lo ≤ n.val ∧ n.val < hi)
  | .double _ => True
  | _ => False

/-- A number that is none of the field's, or a text that is no base64, in a value of the right kind. -/
def Visit.Crashes : Visit M D → Prop
  | .value .int32 json => NoInteger (-2 ^ 31) (2 ^ 31) json
  | .value .uint32 json => NoInteger 0 (2 ^ 32) json
  | .value .int64 json => NoInteger (-2 ^ 63) (2 ^ 63) json
  | .value .uint64 json => NoInteger 0 (2 ^ 64) json
  | .value .bytes (.string text) => ¬ IsBase64 text
  | .value (.enum _) json => NoInteger (-2 ^ 31) (2 ^ 31) json
  | _ => False

def IsNumber : Json D → Prop
  | .int _ | .double _ => True
  | _ => False

/-- Neither a number nor a name of a value, or the number or the name of none. -/
def NoValue (values : List (Bytes × Int32)) : Json D → Prop
  | .int n => (-2 ^ 31 ≤ n.val ∧ n.val < 2 ^ 31) ∧ Int32.ofInt n.val ∉ values.map Prod.snd
  | .double _ => False
  | .string text => values.lookup (cString text) = none
  | _ => True

/-- A value of the wrong kind, and what is tested for and reported. -/
def Visit.Rejected (pool : DescriptorPool M) : Visit M D → Prop
  | .value .int32 json | .value .uint32 json | .value .int64 json | .value .uint64 json => ¬ IsNumber json
  | .value .bool json => ∀ b, json ≠ .bool b
  | .value .string json | .value .bytes json => ∀ text, json ≠ .string text
  | .value (.enum values) json => NoValue values json
  | .value (.message _) _ => False
  | .list json => ∀ elems, json ≠ .array elems
  | .message m (.array elems) => (pool.fields m).length < elems.length
  | .message _ (.object _) => False
  | .message _ _ => True

/-- A failure that has a code, or that has none. -/
def FailsWith (coded : Bool) (failure : Option JsonFailure) : Prop :=
  ∃ f, failure = some f ∧ f.code.isSome = coded

theorem failsWith_some {coded : Bool} {f : JsonFailure} : FailsWith coded (some f) ↔ f.code.isSome = coded := by
  simp [FailsWith]

theorem not_failsWith_none {coded : Bool} : ¬ FailsWith coded none := by simp [FailsWith]

/-- When something fails without a code, and when with one. -/
structure FailsWhen (failure : Option JsonFailure) (crashes rejected : Prop) : Prop where
  crashes_iff : FailsWith false failure ↔ crashes
  rejected_iff : FailsWith true failure ↔ rejected

namespace FailsWhen

variable {crashes rejected : Prop}

theorem passes (sound : ¬ crashes) (fits : ¬ rejected) : FailsWhen none crashes rejected :=
  ⟨iff_of_false not_failsWith_none sound, iff_of_false not_failsWith_none fits⟩

theorem coded {f : JsonFailure} (coded : f.code.isSome = true) (sound : ¬ crashes) (bad : rejected) :
    FailsWhen (some f) crashes rejected := by
  refine ⟨iff_of_false ?_ sound, iff_of_true (failsWith_some.mpr coded) bad⟩
  rw [failsWith_some, coded]
  decide

theorem thrown (e : Exn) (bad : crashes) (fits : ¬ rejected) : FailsWhen (some (.thrown e)) crashes rejected := by
  refine ⟨iff_of_true (failsWith_some.mpr rfl) bad, iff_of_false ?_ fits⟩
  simp [failsWith_some, JsonFailure.code]

end FailsWhen

theorem getNumber_failsWhen (lo hi : ℤ) (json : Json D) :
    FailsWhen (failureOf (getNumber lo hi json)) (NoInteger lo hi json) (¬ IsNumber json) := by
  cases json with
  | int n =>
    rw [getNumber]
    split
    · next inside => exact .passes (fun outside => outside inside) fun other => other trivial
    · next outside => exact .thrown _ outside fun other => other trivial
  | double d => exact .thrown _ trivial fun other => other trivial
  | null | bool | string | array | object => exact .coded rfl not_false not_false

theorem getBool_failsWhen (json : Json D) :
    FailsWhen (failureOf (getBool json)) False (∀ b, json ≠ .bool b) := by
  cases json with
  | bool b => exact .passes not_false fun other => other b rfl
  | null | int | double | string | array | object => exact .coded rfl not_false fun b => by simp

theorem getString_failsWhen (json : Json D) :
    FailsWhen (failureOf (getString json)) False (∀ text, json ≠ .string text) := by
  cases json with
  | string text => exact .passes not_false fun other => other text rfl
  | null | bool | int | double | array | object => exact .coded rfl not_false fun text => by simp

theorem failureOf_getBytes (text : Bytes) : failureOf (getBytes (D := D) (.string text)) =
    if IsBase64 text then none else some (.thrown (b64Failure text)) := by
  rw [getBytes_string]
  cases decoded : b64Decode text with
  | none =>
    have bad : ¬ IsBase64 text := by simp [← b64Decode_isSome_iff, decoded]
    rw [if_neg bad]
    rfl
  | some data =>
    have good : IsBase64 text := by simp [← b64Decode_isSome_iff, decoded]
    rw [if_pos good]
    rfl

theorem getEnum_failsWhen (values : List (Bytes × Int32)) (json : Json D) :
    FailsWhen (failureOf (getEnum values json)) (NoInteger (-2 ^ 31) (2 ^ 31) json) (NoValue values json) := by
  cases json with
  | int n =>
    rw [getEnum, getNumber]
    split
    · next inside =>
      change FailsWhen (failureOf (if Int32.ofInt n.val ∈ values.map Prod.snd then pure (Int32.ofInt n.val)
        else throw (JsonFailure.invalidJson "Enum value not found"))) _ _
      split
      · next declared => exact .passes (fun outside => outside inside) fun noValue => noValue.2 declared
      · next undeclared => exact .coded rfl (fun outside => outside inside) ⟨inside, undeclared⟩
    · next outside => exact .thrown _ outside fun noValue => outside noValue.1
  | double d => exact .thrown _ trivial not_false
  | string text =>
    rw [getEnum, NoValue]
    cases values.lookup (cString text) with
    | none => exact .coded rfl not_false rfl
    | some number => exact .passes not_false (by simp)
  | null | bool | array | object => exact .coded rfl not_false trivial

/-- A test fails without a code on what crashes, and with one on what is rejected. -/
theorem Visit.failsWhen (visit : Visit M D) :
    FailsWhen (visit.failure pool) visit.Crashes (visit.Rejected pool) := by
  cases visit with
  | value type json =>
    cases type with
    | int32 | uint32 | int64 | uint64 => exact getNumber_failsWhen _ _ json
    | bool => exact getBool_failsWhen json
    | string => exact getString_failsWhen json
    | enum values => exact getEnum_failsWhen values json
    | message m => exact .passes not_false not_false
    | bytes =>
      cases json with
      | string text =>
        rw [Visit.failure, failureOf_getBytes]
        split
        · next good => exact .passes (not_not_intro good) fun other => other text rfl
        · next bad => exact .thrown _ bad fun other => other text rfl
      | null | bool | int | double | array | object => exact .coded rfl not_false fun text => by simp
  | list json =>
    cases json with
    | array elems => exact .passes not_false fun other => other elems rfl
    | null | bool | int | double | string | object => exact .coded rfl not_false fun elems => by simp
  | message m json =>
    cases json with
    | array elems =>
      rw [Visit.failure]
      split
      · next long => exact .coded rfl not_false long
      · next fits => exact .passes not_false fits
    | object members => exact .passes not_false not_false
    | null | bool | int | double | string => exact .coded rfl not_false trivial

theorem Visit.failure_eq_none_iff (visit : Visit M D) :
    visit.failure pool = none ↔ ¬ visit.Crashes ∧ ¬ visit.Rejected pool := by
  have fails := @Visit.failsWhen _ _ pool visit
  rw [← fails.crashes_iff, ← fails.rejected_iff]
  cases visit.failure pool with
  | none => exact iff_of_true rfl ⟨not_failsWith_none, not_failsWith_none⟩
  | some failure =>
    simp only [failsWith_some, reduceCtorEq, false_iff, not_and, Bool.not_eq_false, Bool.not_eq_true]
    intro coded
    simp [coded]

/-- Reading succeeds on documents that pass every test. -/
theorem parseJson_ok_iff (m : M) (json : Json D) (msg : Message) : failureOf (parseJson pool m json msg) = none ↔
    ∀ visit ∈ visitJson pool m json, ¬ visit.Crashes ∧ ¬ visit.Rejected pool := by
  rw [failureOf_parseJson, List.findSome?_eq_none_iff]
  exact forall₂_congr fun visit _ => visit.failure_eq_none_iff

/-- Reading does not throw exactly if something is rejected before anything crashes. -/
theorem parseJson_coded_iff (m : M) (json : Json D) (msg : Message) :
    (∀ failure, failureOf (parseJson pool m json msg) = some failure → failure.code.isSome) ↔
      ∀ front visit back, visitJson pool m json = front ++ visit :: back → visit.Crashes →
        ∃ earlier ∈ front, earlier.Rejected pool := by
  have first := findSome?_ne_iff (f := Visit.failure pool) (fun failure => failure.code.isSome = false)
    (visitJson pool m json)
  simp only [Bool.not_eq_false, ← FailsWith.eq_1, (Visit.failsWhen _).crashes_iff,
    (Visit.failsWhen _).rejected_iff] at first
  rw [failureOf_parseJson]
  exact first

/-- Nothing in a document is malformed. -/
def WellFormedText (codec : JsonCodec D) (m : MessageType) (text : Bytes) : Prop :=
  ∃ json, codec.parse (cString text) = .ok json ∧
    ∀ visit ∈ visitJson protoPool m json, ¬ visit.Crashes ∧ ¬ visit.Rejected protoPool

/-- `json2pb` returns zero or a negative code, and zero only for what is well formed. -/
def ReportsByCode (codec : JsonCodec D) (m : MessageType) (text : Bytes) (msg : Message) : Prop :=
  ∃ code, returnCode (json2pb protoPool codec m text msg) = some code ∧ code ≤ 0 ∧
    (code = 0 ↔ WellFormedText codec m text)

/-- `json2pb` reports what it is given by a code exactly if every value that makes it throw comes behind one that it
rejects. -/
theorem json2pb_reports_iff (codec : JsonCodec D) (m : MessageType) (text : Bytes) (msg : Message) :
    ReportsByCode codec m text msg ↔ ∀ json, codec.parse (cString text) = .ok json →
      ∀ front visit back, visitJson protoPool m json = front ++ visit :: back → visit.Crashes →
        ∃ earlier ∈ front, earlier.Rejected protoPool := by
  rw [ReportsByCode, json2pb]
  cases parsed : codec.parse (cString text) with
  | error number =>
    have malformed : ¬ WellFormedText codec m text := by
      rintro ⟨json, parsed', _⟩
      rw [parsed] at parsed'
      contradiction
    refine iff_of_true ⟨-1, rfl, by decide, iff_of_false (by decide) malformed⟩ fun json parsed' => ?_
    contradiction
  | ok json =>
    have wellFormed : WellFormedText codec m text ↔ failureOf (parseJson protoPool m json msg) = none := by
      rw [parseJson_ok_iff]
      constructor
      · rintro ⟨json', parsed', passes⟩
        obtain rfl := Except.ok.inj (parsed.symm.trans parsed')
        exact passes
      · exact fun passes => ⟨json, parsed, passes⟩
    have every (property : Json D → Prop) :
        (∀ json', Except.ok (ε := ℕ) json = .ok json' → property json') ↔ property json := by simp
    rw [every, ← parseJson_coded_iff m json msg, wellFormed]
    change (∃ code, returnCode (parseJson protoPool m json msg) = some code ∧ _) ↔ _
    cases parseJson protoPool m json msg with
    | ok msg => exact iff_of_true ⟨0, rfl, le_rfl, by simp [failureOf]⟩ fun failure none => by contradiction
    | error failure =>
      cases failure with
      | invalidArg err =>
        refine iff_of_true ⟨-1, rfl, by decide, by simp [failureOf]⟩ ?_
        rintro _ ⟨⟩
        rfl
      | invalidJson err =>
        refine iff_of_true ⟨-4, rfl, by decide, by simp [failureOf]⟩ ?_
        rintro _ ⟨⟩
        rfl
      | thrown e =>
        refine iff_of_false ?_ fun coded => by simpa [JsonFailure.code] using coded _ rfl
        rintro ⟨code, returned, _⟩
        contradiction

/-- The document of a request that asks for more attempts than 32 bits hold. -/
def hugeAttempt : Json Empty := .object [(ascii "send_attempt", .int ⟨4294967296, by decide, by decide⟩)]

/-- The request throws. -/
theorem hugeAttempt_throws : ¬ ReportsByCode compactJson .requestTokenT (compactJson.write hugeAttempt) .empty := by
  have field : protoPool.findField .requestTokenT (cString (ascii "send_attempt")) =
      some (MessageType.one .int32 "send_attempt") := by rfl
  have single : (MessageType.one .int32 "send_attempt").repeated = false := rfl
  have notNull (n : JsonInt) : (.int n : Json Empty) ≠ .null := by simp
  have thrown : parseJson protoPool .requestTokenT hugeAttempt .empty = .error (.thrown .badJson) := by
    rw [hugeAttempt, parseJson, parseMembers, field]
    simp only [parseSlot_of_single single (notNull _)]
    rw [json2field]
    rfl
  rintro ⟨code, returned, _⟩
  rw [json2pb, compactJson_roundTrips] at returned
  change returnCode (parseJson protoPool .requestTokenT hugeAttempt .empty) = _ at returned
  rw [thrown] at returned
  contradiction

end Identt.Query
