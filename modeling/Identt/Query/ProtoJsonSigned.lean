import Identt.Query.ProtoJson

/-! # Signed JSON (`ProtoJsonSigned`)

A signed object has a member `signatures` behind its own ones, with a member for each signature, and may have
one that is called `unsigned`. Both are taken out again before a signature is verified.
-/

namespace Identt.Query

variable {D : Type}

structure SignatureT where
  org : Bytes
  key : Bytes
  value : Bytes
deriving DecidableEq, Repr, Inhabited

abbrev SignatureListT := List SignatureT

def signaturesName : Bytes := ascii "signatures"

def unsignedName : Bytes := ascii "unsigned"

theorem unsignedName_ne : unsignedName ≠ signaturesName := by decide

/-- The member for a signature. Its texts go in as C strings. -/
def SignatureT.entry (s : SignatureT) : Bytes × Json D :=
  (cString s.org, .object [(cString s.key, .string (cString s.value))])

/-- What is read back of a signature. -/
def SignatureT.read (s : SignatureT) : SignatureT where
  org := cString s.org
  key := cString s.key
  value := cString s.value

/-- The loop over the signatures, in `pb2signedjson` and in `unsigned2signedjson`. -/
def addSignatures (signatures : SignatureListT) (json : Json D) : Json D :=
  let json := json.create signaturesName
  let sign := (json.get? signaturesName).getD .null
  json.setMember signaturesName (.object (sign.members ++ signatures.map SignatureT.entry))

section Encode

variable {M : Type} (pool : DescriptorPool M) (codec : JsonCodec D)

/-- `pb2signedjson`, which appends to `str`. -/
def pb2signedjson (m : M) (msg : Message) (str : Bytes) (signatures : SignatureListT) : Bytes :=
  str ++ codec.write (addSignatures signatures (parseMsg pool m msg))

/-- `pb2signedjson` with unsigned. The object for `umsg` is assigned to the pointer, so the member that the
pointer was for stays as it was created. -/
def pb2signedjsonUnsigned (m : M) (msg : Message) (_umsg : Message) (str : Bytes) (signatures : SignatureListT) :
    Bytes :=
  str ++ codec.write ((addSignatures signatures (parseMsg pool m msg)).create unsignedName)

/-- The object of the unsigned part, whose members are added one by one. -/
def appendMembers (added : List (Bytes × Json D)) (unsign : Json D) : Except JsonFailure (Json D) :=
  match added, unsign with
  | [], unsign => .ok unsign
  | added, .object members => .ok (.object (members ++ added))
  | _, _ => .error (.thrown .badJson)

/-- The part of `unsigned2signedjson` that adds `unsigned`. A text that is no object, or not parsed, throws. -/
def addUnsigned (uinput : Bytes) (json : Json D) : Except JsonFailure (Json D) := do
  let json := json.create unsignedName
  let unsign := (json.get? unsignedName).getD .null
  match codec.parse (cString uinput) with
  | .ok (.object added) => return json.setMember unsignedName (← appendMembers added unsign)
  | _ => throw (.thrown .badJson)

def unsigned2signedjson (input uinput : Bytes) (signatures : SignatureListT) : Except JsonFailure Bytes :=
  match codec.parse (cString input) with
  | .error number => .error (.invalidArg (parseErr number))
  | .ok d => do
    let d := addSignatures signatures d
    let d ← if 2 < uinput.length then addUnsigned codec uinput d else pure d
    return codec.write d

end Encode

section Decode

/-- The signatures of an owner. -/
def readKeys (org : Bytes) : List (Bytes × Json D) → Except JsonFailure SignatureListT
  | [] => .ok []
  | (key, .string value) :: rest => do
    let others ← readKeys org rest
    return ⟨org, cString key, cString value⟩ :: others
  | _ :: _ => .error (.thrown .badJson)

def readOwners : List (Bytes × Json D) → Except JsonFailure SignatureListT
  | [] => .ok []
  | (org, .object keys) :: rest => do
    let signatures ← readKeys (cString org) keys
    let others ← readOwners rest
    return signatures ++ others
  | _ :: _ => .error (.invalidArg "")

/-- The signatures in the member; it has to be an object. -/
def readSignatures : Json D → Except JsonFailure SignatureListT
  | .object owners => readOwners owners
  | _ => .error (.thrown .badJson)

def memberSignatures (d : Json D) : Except JsonFailure SignatureListT :=
  match d.get? signaturesName with
  | some sign => readSignatures sign
  | none => .ok []

variable (codec : JsonCodec D)

/-- `signedjson2unsigned` gives the text that was signed, the unsigned one behind what is in `umsg`, and all
signatures. -/
def signedjson2unsigned (input umsg : Bytes) (signatures : SignatureListT) :
    Except JsonFailure (Bytes × Bytes × SignatureListT) :=
  match codec.parse (cString input) with
  | .error number => .error (.invalidArg (parseErr number))
  | .ok d => do
    let found ← memberSignatures d
    let d := d.eraseMember signaturesName
    let umsg :=
      match d.get? unsignedName with
      | some unsign => umsg ++ codec.write unsign
      | none => umsg
    return (codec.write (d.eraseMember unsignedName), umsg, signatures ++ found)

end Decode

/-- The signatures that are added are read back. -/
theorem readOwners_entries (signatures : SignatureListT) :
    readOwners (D := D) (signatures.map SignatureT.entry) = .ok (signatures.map SignatureT.read) := by
  induction signatures with
  | nil => rfl
  | cons s rest ih =>
    rw [List.map_cons, SignatureT.entry, readOwners, ih, cString_cString]
    simp only [readKeys, cString_cString]
    rfl

theorem get?_addSignatures {json : Json D} (absent : json.get? signaturesName = none)
    (signatures : SignatureListT) :
    (addSignatures signatures json).get? signaturesName =
      some (.object (signatures.map SignatureT.entry)) := by
  have created := json.get?_create signaturesName
  rw [absent, Option.getD_none] at created
  simp only [addSignatures]
  rw [Json.get?_setMember _ _ (by rw [created]; rfl), created]
  rfl

/-- Signing adds nothing but the one member. -/
theorem get?_addSignatures_of_ne {name : Bytes} (other : name ≠ signaturesName) (json : Json D)
    (signatures : SignatureListT) : (addSignatures signatures json).get? name = json.get? name := by
  simp only [addSignatures]
  rw [Json.get?_setMember_of_ne other, Json.get?_create_of_ne other]

theorem eraseMember_addSignatures (members : List (Bytes × Json D)) (signatures : SignatureListT) :
    (addSignatures signatures (.object members)).eraseMember signaturesName =
      (Json.object members).eraseMember signaturesName := by
  simp only [addSignatures]
  rw [Json.eraseMember_setMember, Json.eraseMember_create]

theorem exists_addSignatures (signatures : SignatureListT) (json : Json D) :
    ∃ members, addSignatures signatures json = .object members := by
  obtain ⟨members, object⟩ := json.exists_create signaturesName
  rw [addSignatures, object]
  exact ⟨_, rfl⟩

/-- Without an unsigned part, only the signatures are added. -/
theorem unsigned2signedjson_of_short {codec : JsonCodec D} (roundTrips : codec.RoundTrips) (json : Json D)
    {uinput : Bytes} (short : uinput.length ≤ 2) (signatures : SignatureListT) :
    unsigned2signedjson codec (codec.write json) uinput signatures =
      .ok (codec.write (addSignatures signatures json)) := by
  rw [unsigned2signedjson, roundTrips]
  simp only [if_neg (not_lt.mpr short)]
  rfl

/-- An unsigned object is added to the member that was there, or to `null`. -/
theorem unsigned2signedjson_of_long {codec : JsonCodec D} (roundTrips : codec.RoundTrips) {json : Json D}
    {uinput output : Bytes} (long : 2 < uinput.length) {added : List (Bytes × Json D)}
    (isObject : codec.parse (cString uinput) = .ok (.object added)) {signatures : SignatureListT}
    (made : unsigned2signedjson codec (codec.write json) uinput signatures = .ok output) :
    ∃ unsign, appendMembers added ((json.get? unsignedName).getD .null) = .ok unsign ∧
      output = codec.write (((addSignatures signatures json).create unsignedName).setMember unsignedName unsign) := by
  rw [unsigned2signedjson, roundTrips] at made
  simp only [if_pos long, addUnsigned, isObject] at made
  obtain ⟨d, extended, made⟩ := bind_eq_ok.mp made
  obtain ⟨unsign, appended, rest⟩ := bind_eq_ok.mp extended
  cases rest
  cases made
  rw [Json.get?_create, get?_addSignatures_of_ne unsignedName_ne] at appended
  exact ⟨unsign, appended, rfl⟩

/-- Both members are taken out of what was signed with an unsigned part. -/
theorem eraseMember_setUnsigned (members : List (Bytes × Json D)) (signatures : SignatureListT) (unsign : Json D) :
    ((((addSignatures signatures (.object members)).create unsignedName).setMember unsignedName
        unsign).eraseMember signaturesName).eraseMember unsignedName =
      ((Json.object members).eraseMember signaturesName).eraseMember unsignedName := by
  have signed := eraseMember_addSignatures members signatures
  obtain ⟨all, object⟩ := exists_addSignatures signatures (.object members)
  rw [object] at signed ⊢
  calc
    _ = (((Json.object all).eraseMember signaturesName).create unsignedName).eraseMember unsignedName := by
      rw [Json.eraseMember_setMember_of_ne unsignedName_ne.symm, Json.eraseMember_setMember,
        Json.eraseMember_create_of_ne unsignedName_ne.symm]
    _ = _ := by
      rw [signed]
      exact Json.eraseMember_create _ _

/-- What was signed comes back with all signatures. -/
theorem signedjson2unsigned_addSignatures {codec : JsonCodec D} (roundTrips : codec.RoundTrips)
    {members : List (Bytes × Json D)} (noSignatures : (Json.object members).get? signaturesName = none)
    (noUnsigned : (Json.object members).get? unsignedName = none) (signatures received : SignatureListT)
    (umsg : Bytes) :
    signedjson2unsigned codec (codec.write (addSignatures signatures (.object members))) umsg received =
      .ok (codec.write (.object members), umsg, received ++ signatures.map SignatureT.read) := by
  have erased := eraseMember_addSignatures members signatures
  rw [Json.eraseMember_of_get?_none _ noSignatures] at erased
  rw [signedjson2unsigned, roundTrips]
  simp only [memberSignatures, get?_addSignatures noSignatures, readSignatures, readOwners_entries, erased, noUnsigned,
    Json.eraseMember_of_get?_none _ noUnsigned]
  rfl

/-- What comes out of a signed text: the object without the two members, and the unsigned one. -/
theorem signedjson2unsigned_eq_ok {codec : JsonCodec D} (roundTrips : codec.RoundTrips) {d : Json D}
    {umsg output uoutput : Bytes} {received all : SignatureListT}
    (parsed : signedjson2unsigned codec (codec.write d) umsg received = .ok (output, uoutput, all)) :
    output = codec.write ((d.eraseMember signaturesName).eraseMember unsignedName) ∧
      uoutput = umsg ++ ((d.get? unsignedName).map codec.write).getD [] := by
  rw [signedjson2unsigned, roundTrips] at parsed
  simp only at parsed
  obtain ⟨found, -, parsed⟩ := bind_eq_ok.mp parsed
  simp only [Json.get?_eraseMember_of_ne unsignedName_ne.symm] at parsed
  cases parsed
  cases d.get? unsignedName <;> simp

/-- A text that loses neither of the two members has none of them. -/
theorem get?_of_erased {codec : JsonCodec D} (roundTrips : codec.RoundTrips) {members : List (Bytes × Json D)}
    (unchanged : codec.write (((Json.object members).eraseMember signaturesName).eraseMember unsignedName) =
      codec.write (.object members)) :
    (Json.object members).get? unsignedName = none :=
  Json.get?_of_eraseMember_eraseMember (roundTrips.injective unchanged)

end Identt.Query
