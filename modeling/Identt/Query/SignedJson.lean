import Identt.Crypto.Ed25519
import Identt.Proto.Query
import Identt.Query.ProtoJsonSigned

/-! # Signing messages and JSON texts (`SignedJson`)

`AddSign` signs the JSON of a message, or a text, and puts the signature behind older ones into the signed object;
`VerifySign` takes the last signature of an owner and a key and gives back what was signed.
-/

namespace Identt.Query

open Crypto

variable {D : Type}

/-- The name of a key in the keyring and under `signatures`. -/
def PubKeyT.pkid (pubkey : PubKeyT) : Bytes := pubkey.algo ++ ascii ":" ++ pubkey.identifier

def PubKeyT.signature (pubkey : PubKeyT) (value : Bytes) : SignatureT := ⟨pubkey.owner, pubkey.pkid, value⟩

/-- What `SignedJson` throws for a code that is returned. -/
def JsonFailure.exn (text : String → String) : JsonFailure → Exn
  | .invalidArg err | .invalidJson err => .sydent (text err) mBadJson
  | .thrown e => e

/-- The keys that the services sign with. -/
abbrev KeyRing := Bytes → Option Ed25519

namespace SignedJson

def getSigner (keyring : KeyRing) (pubkey : PubKeyT) (scope : ℕ) : Except Exn Ed25519 :=
  if pubkey.noKeyring = false then
    match keyring pubkey.pkid with
    | none => .error (.sydent "Invalid Signing Key" mBadJson)
    | some key => .ok key
  -- a key for signing or for verifying alone is made from both parts too
  else if scope &&& (scopeSignit + scopeVerify) ≠ 0 then
    createPair pubkey.algo pubkey.publicKey pubkey.privateKey
  else if scope &&& scopeSignit ≠ 0 then createSingle pubkey.algo scopeSignit pubkey.privateKey
  else if scope &&& scopeVerify ≠ 0 then createSingle pubkey.algo scopeVerify pubkey.publicKey
  else .error (.sydent "Invalid scope of Signing Key" mBadJson)

section AddSign

variable {M : Type} (pool : DescriptorPool M) (codec : JsonCodec D) (sodium : Sodium) (keyring : KeyRing)

/-- The signature that every `AddSign` pushes back. -/
def sign (input : Bytes) (pubkey : PubKeyT) : Except Exn SignatureT := do
  let mykey ← getSigner keyring pubkey scopeSignit
  let value ← mykey.getSignature sodium input
  return pubkey.signature value

/-- `AddSign` for a message. -/
def addSignMsg (m : M) (result : Message) (pubkey : PubKeyT) (output : Bytes) (signatures : SignatureListT) :
    Except Exn (Bytes × SignatureListT) := do
  let signatures := signatures ++ [← sign sodium keyring (pb2json pool codec m result) pubkey]
  return (pb2signedjson pool codec m result output signatures, signatures)

/-- `AddSign` for a message with unsigned. -/
def addSignMsgUnsigned (m : M) (result uresult : Message) (pubkey : PubKeyT) (output : Bytes)
    (signatures : SignatureListT) : Except Exn (Bytes × SignatureListT) := do
  let signatures := signatures ++ [← sign sodium keyring (pb2json pool codec m result) pubkey]
  return (pb2signedjsonUnsigned pool codec m result uresult output signatures, signatures)

/-- `AddSign` for a text with unsigned. -/
def addSignUnsigned (input uinput : Bytes) (pubkey : PubKeyT) (signatures : SignatureListT) :
    Except Exn (Bytes × SignatureListT) := do
  let signatures := signatures ++ [← sign sodium keyring input pubkey]
  match unsigned2signedjson codec input uinput signatures with
  | .ok output => return (output, signatures)
  | .error failure => throw (failure.exn fun err => "Bad Json Format: " ++ err)

/-- `AddSign` for a text. -/
def addSign (input : Bytes) (pubkey : PubKeyT) (signatures : SignatureListT) :
    Except Exn (Bytes × SignatureListT) := addSignUnsigned codec sodium keyring input [] pubkey signatures

end AddSign

/-- The loop of `VerifySign`: the last signature of the owner and the key. -/
def findSignature (owner pkid : Bytes) (signatures : SignatureListT) : Option Bytes :=
  signatures.foldl (fun found s => if s.org = owner ∧ s.key = pkid then some s.value else found) none

section VerifySign

variable {M : Type} (pool : DescriptorPool M) (codec : JsonCodec D) (sodium : Sodium) (keyring : KeyRing)

/-- `VerifySign` for a text. It gives the text that was signed, the unsigned one behind what is in `uoutput`,
and the signatures. -/
def verifySign (input : Bytes) (pubkey : PubKeyT) (uoutput : Bytes) (signatures : SignatureListT) :
    Except Exn (Bytes × Bytes × SignatureListT) := do
  match signedjson2unsigned codec input uoutput signatures with
  | .error failure => throw (failure.exn fun _ => "Invalid Json cannot create unsigned")
  | .ok (output, uoutput, signatures) =>
    match findSignature pubkey.owner pubkey.pkid signatures with
    | none => throw (.sydent "Invalid Json no signature" mBadJson)
    | some signa =>
      let mykey ← getSigner keyring pubkey scopeVerify
      if ← mykey.verifySignature sodium signa output then return (output, uoutput, signatures)
      else throw (.sydent "Invalid Signature" mBadJson)

/-- `VerifySign` for a message. -/
def verifySignMsg (m : M) (input : Bytes) (pubkey : PubKeyT) (result : Message) (signatures : SignatureListT) :
    Except Exn (Message × SignatureListT) := do
  let (output, _, signatures) ← verifySign codec sodium keyring input pubkey [] signatures
  match json2pb pool codec m output result with
  | .ok result => return (result, signatures)
  | .error failure => throw (failure.exn fun _ => "Invalid Json cannot make proto")

/-- `VerifySign` for a message with unsigned. -/
def verifySignMsgUnsigned (m u : M) (input : Bytes) (pubkey : PubKeyT) (result uresult : Message)
    (signatures : SignatureListT) : Except Exn (Message × Message × SignatureListT) := do
  let (output, uoutput, signatures) ← verifySign codec sodium keyring input pubkey [] signatures
  match json2pb pool codec m output result with
  | .error failure => throw (failure.exn fun _ => "Invalid Json cannot make proto")
  | .ok result =>
    if uoutput.length = 0 then return (result, uresult, signatures)
    else
      match json2pb pool codec u uoutput uresult with
      | .ok uresult => return (result, uresult, signatures)
      | .error failure => throw (failure.exn fun _ => "Invalid Json cannot make proto from unsigned")

end VerifySign

/-- The last matching signature is found, whatever is in front of it. -/
theorem findSignature_append (pubkey : PubKeyT) (value : Bytes) (older : SignatureListT) :
    findSignature pubkey.owner pubkey.pkid (older ++ [pubkey.signature value]) = some value := by
  rw [findSignature, List.foldl_append]
  simp [PubKeyT.signature]

theorem findSignature_eq_none {owner pkid : Bytes} {signatures : SignatureListT}
    (others : ∀ s ∈ signatures, ¬(s.org = owner ∧ s.key = pkid)) : findSignature owner pkid signatures = none := by
  rw [findSignature]
  induction signatures with
  | nil => rfl
  | cons s rest ih =>
    obtain ⟨first, others⟩ := List.forall_mem_cons.mp others
    rw [List.foldl_cons, if_neg first, ih others]

section Keyring

variable {codec : JsonCodec D} {sodium : Sodium} {keyring : KeyRing} {key : Ed25519} {pubkey : PubKeyT}

theorem getSigner_of_keyring (inKeyring : pubkey.noKeyring = false) (found : keyring pubkey.pkid = some key)
    (scope : ℕ) : getSigner keyring pubkey scope = .ok key := by
  rw [getSigner, if_pos inKeyring, found]

/-- A text that is signed and that the signature can be added to. -/
theorem addSignUnsigned_of_sign {input uinput output : Bytes} {s : SignatureT} {older : SignatureListT}
    (signed : sign sodium keyring input pubkey = .ok s)
    (added : unsigned2signedjson codec input uinput (older ++ [s]) = .ok output) :
    addSignUnsigned codec sodium keyring input uinput pubkey older = .ok (output, older ++ [s]) := by
  rw [addSignUnsigned, signed]
  change (match unsigned2signedjson codec input uinput (older ++ [s]) with
    | .ok output => pure (output, older ++ [s])
    | .error failure => throw (failure.exn fun err => "Bad Json Format: " ++ err)) = _
  rw [added]
  rfl

/-- Without an unsigned part, `AddSign` puts the signature behind the older ones. -/
theorem addSign_eq (roundTrips : codec.RoundTrips) (json : Json D) (older : SignatureListT) :
    addSign codec sodium keyring (codec.write json) pubkey older =
      (sign sodium keyring (codec.write json) pubkey).map fun s =>
        (codec.write (addSignatures (older ++ [s]) json), older ++ [s]) := by
  have short : ([] : Bytes).length ≤ 2 := Nat.zero_le 2
  cases signed : sign sodium keyring (codec.write json) pubkey with
  | error e =>
    rw [addSign, addSignUnsigned, signed]
    rfl
  | ok s => exact addSignUnsigned_of_sign signed (unsigned2signedjson_of_short roundTrips _ short _)

theorem sign_eq_ok (inKeyring : pubkey.noKeyring = false) (found : keyring pubkey.pkid = some key) {input : Bytes}
    {s : SignatureT} (signed : sign sodium keyring input pubkey = .ok s) :
    ∃ value, key.getSignature sodium input = .ok value ∧ s = pubkey.signature value := by
  rw [sign, getSigner_of_keyring inKeyring found] at signed
  obtain ⟨_, ⟨⟩, signed⟩ := bind_eq_ok.mp signed
  obtain ⟨value, made, signed⟩ := bind_eq_ok.mp signed
  cases signed
  exact ⟨value, made, rfl⟩

/-- A pair in the keyring signs everything. -/
theorem sign_of_keyring (inKeyring : pubkey.noKeyring = false) (found : keyring pubkey.pkid = some key)
    (pair : key.IsPair sodium) (input : Bytes) :
    ∃ value, key.getSignature sodium input = .ok value ∧ cString value = value ∧
      sign sodium keyring input pubkey = .ok (pubkey.signature value) := by
  have signed := pair.getSignature input
  refine ⟨_, signed, Ed25519.cString_of_getSignature signed, ?_⟩
  rw [sign, getSigner_of_keyring inKeyring found]
  change (key.getSignature sodium input >>= fun value => pure _) = _
  rw [signed]
  rfl

/-- The names under which a signature is stored are C strings. -/
structure PlainNames (pubkey : PubKeyT) : Prop where
  owner : 0 ∉ pubkey.owner
  pkid : 0 ∉ pubkey.pkid

theorem PlainNames.cString_owner (plain : PlainNames pubkey) : cString pubkey.owner = pubkey.owner :=
  cString_of_ne_zero fun c member => by
    rintro rfl
    exact plain.owner member

theorem PlainNames.cString_pkid (plain : PlainNames pubkey) : cString pubkey.pkid = pubkey.pkid :=
  cString_of_ne_zero fun c member => by
    rintro rfl
    exact plain.pkid member

/-- What is stored under plain names is found again. -/
theorem plainNames_of_read {s : SignatureT} (found : s.read.org = pubkey.owner ∧ s.read.key = pubkey.pkid) :
    PlainNames pubkey where
  owner := found.1 ▸ zero_notMem_cString s.org
  pkid := found.2 ▸ zero_notMem_cString s.key

/-- The members of a message are those of its fields. -/
theorem get?_parseMsg {name : Bytes} {m : MessageType} (other : ∀ field ∈ protoPool.fields m, field.name ≠ name)
    (msg : Message) : (parseMsg (D := D) protoPool m msg).get? name = none := by
  rw [parseMsg_eq]
  apply Json.get?_of_absent
  rintro member
  obtain ⟨⟨title, json⟩, isMember, rfl⟩ := List.mem_map.mp member
  obtain ⟨field, isField, written⟩ := List.mem_filterMap.mp isMember
  exact other field isField (memberOf_fst written).symm

theorem field_ne_signatures (m : MessageType) : ∀ field ∈ protoPool.fields m, field.name ≠ signaturesName := by
  have names : signaturesName ∉ (protoPool.fields m).map FieldDescriptor.name := by cases m <;> decide +kernel
  exact fun field isField same => names (same ▸ List.mem_map_of_mem isField)

theorem field_ne_unsigned (m : MessageType) : ∀ field ∈ protoPool.fields m, field.name ≠ unsignedName := by
  have names : unsignedName ∉ (protoPool.fields m).map FieldDescriptor.name := by cases m <;> decide +kernel
  exact fun field isField same => names (same ▸ List.mem_map_of_mem isField)

end Keyring

/-! A key whose signatures repeat the secret key and the text, for trying the functions out. -/

def exampleSodium : Sodium where
  signDetached input seckey := seckey ++ input
  verifyDetached signature input pubkey := signature = pubkey ++ input

def exampleKey : Ed25519 := { pubkey := [1], seckey := [1], scope := scopeAll }

theorem exampleKey_verifySignature (input other : Bytes) :
    exampleKey.verifySignature exampleSodium (b64EncodeStrip ([1] ++ input)) other =
      .ok (decide ([1] ++ input = [1] ++ other)) := by
  rw [Ed25519.verifySignature, if_neg (by decide), b64SanitDecode_encodeStrip]
  rfl

theorem exampleKey_isPair : exampleKey.IsPair exampleSodium where
  scope := rfl
  accepts input signature signed := by
    cases signed
    exact (exampleKey_verifySignature input input).trans (congrArg _ (decide_eq_true rfl))

theorem exampleKey_signsOne : exampleKey.SignsOne exampleSodium := by
  intro input signature other signed accepted
  cases signed
  have same := (exampleKey_verifySignature input other).symm.trans accepted
  have equal : input = other := by simpa using Except.ok.inj same
  exact equal.symm

def exampleKeyring : KeyRing := fun pkid => if pkid = ascii "ed25519:0" then some exampleKey else none

def exampleSigner (owner : Bytes) : PubKeyT where
  algo := ascii "ed25519"
  identifier := ascii "0"
  owner := owner

section Verified

variable {codec : JsonCodec D} (roundTrips : codec.RoundTrips) {sodium : Sodium} {keyring : KeyRing} {key : Ed25519}
  {pubkey : PubKeyT} (inKeyring : pubkey.noKeyring = false) (found : keyring pubkey.pkid = some key)
  (pair : key.IsPair sodium) {members : List (Bytes × Json D)}
  (noSignatures : (Json.object members).get? signaturesName = none)
  (noUnsigned : (Json.object members).get? unsignedName = none)

include roundTrips inKeyring found pair noSignatures noUnsigned

/-- The signature that was made last is verified, over what was signed. -/
theorem verifySign_signed {value : Bytes}
    (signed : key.getSignature sodium (codec.write (.object members)) = .ok value) (plain : PlainNames pubkey)
    (older received : SignatureListT) (uoutput : Bytes) :
    ∃ all, verifySign codec sodium keyring
      (codec.write (addSignatures (older ++ [pubkey.signature value]) (.object members))) pubkey
      uoutput received = .ok (codec.write (.object members), uoutput, all) := by
  have last : received ++ (older ++ [pubkey.signature value]).map SignatureT.read =
      (received ++ older.map SignatureT.read) ++ [pubkey.signature value] := by
    rw [List.map_append, List.append_assoc, List.map_singleton, SignatureT.read, PubKeyT.signature,
      plain.cString_owner, plain.cString_pkid, Ed25519.cString_of_getSignature signed]
  refine ⟨(received ++ older.map SignatureT.read) ++ [pubkey.signature value], ?_⟩
  rw [verifySign, signedjson2unsigned_addSignatures roundTrips noSignatures noUnsigned, last]
  simp only [findSignature_append, getSigner_of_keyring inKeyring found]
  change (key.verifySignature sodium value (codec.write (.object members)) >>= fun accepted => _) = _
  rw [pair.accepts _ _ signed]
  rfl

omit inKeyring found pair in
/-- A name with a NUL in it is not found again. -/
theorem verifySign_not_plain (notPlain : ¬ PlainNames pubkey) (signatures : SignatureListT) (uoutput : Bytes) :
    verifySign codec sodium keyring (codec.write (addSignatures signatures (.object members))) pubkey uoutput [] =
      .error (.sydent "Invalid Json no signature" mBadJson) := by
  have none : findSignature pubkey.owner pubkey.pkid ([] ++ signatures.map SignatureT.read) = none := by
    apply findSignature_eq_none
    rintro s member matching
    obtain ⟨s, -, rfl⟩ := List.mem_map.mp member
    exact notPlain (plainNames_of_read matching)
  rw [verifySign, signedjson2unsigned_addSignatures roundTrips noSignatures noUnsigned]
  simp only [none]
  rfl

end Verified

/-- What `AddSign` signed is what `VerifySign` gives back, whatever older signatures there are, for messages and
for texts of objects, exactly when owner and key have names without NUL. -/
theorem verifySign_addSign_iff {codec : JsonCodec D} (roundTrips : codec.RoundTrips) {sodium : Sodium}
    {keyring : KeyRing} {key : Ed25519} {pubkey : PubKeyT} (inKeyring : pubkey.noKeyring = false)
    (found : keyring pubkey.pkid = some key) (pair : key.IsPair sodium) :
    (∀ (m : MessageType) (msg : Message), protoPool.IsMessage m msg → ∀ older, ∃ output signatures,
      addSignMsg protoPool codec sodium keyring m msg pubkey [] older = .ok (output, signatures) ∧
        ((∀ received, ∃ all,
          verifySignMsg protoPool codec sodium keyring m output pubkey .empty received = .ok (msg, all)) ↔
            PlainNames pubkey)) ∧
    (∀ members : List (Bytes × Json D), signaturesName ∉ members.map Prod.fst → unsignedName ∉ members.map Prod.fst →
      ∀ older, ∃ output signatures,
        addSign codec sodium keyring (codec.write (.object members)) pubkey older = .ok (output, signatures) ∧
          ((∀ received, ∃ all, verifySign codec sodium keyring output pubkey [] received =
            .ok (codec.write (.object members), [], all)) ↔ PlainNames pubkey)) := by
  constructor
  · intro m msg isMessage older
    have read := parseJson_parseMsg (D := D) isMessage
    have noSignatures := get?_parseMsg (D := D) (field_ne_signatures m) msg
    have noUnsigned := get?_parseMsg (D := D) (field_ne_unsigned m) msg
    obtain ⟨members, object⟩ : ∃ members, parseMsg (D := D) protoPool m msg = .object members :=
      ⟨_, parseMsg_eq m msg⟩
    rw [object] at read noSignatures noUnsigned
    obtain ⟨value, signed, -, added⟩ := sign_of_keyring inKeyring found pair (pb2json protoPool codec m msg)
    rw [pb2json, object] at signed
    refine ⟨codec.write (addSignatures (older ++ [pubkey.signature value]) (.object members)),
      older ++ [pubkey.signature value], ?_, ?_⟩
    · rw [addSignMsg, added, ← object]
      rfl
    constructor
    · intro verifies
      by_contra notPlain
      obtain ⟨all, verified⟩ := verifies []
      rw [verifySignMsg, verifySign_not_plain roundTrips noSignatures noUnsigned notPlain] at verified
      cases verified
    · intro plain received
      obtain ⟨all, verified⟩ := verifySign_signed roundTrips inKeyring found pair noSignatures noUnsigned signed
        plain older received []
      refine ⟨all, ?_⟩
      rw [verifySignMsg, verified]
      change (match json2pb protoPool codec m (codec.write (.object members)) .empty with
        | .ok result => pure (result, all)
        | .error failure => throw (failure.exn fun _ => "Invalid Json cannot make proto")) = _
      rw [json2pb, roundTrips]
      simp only [read]
      rfl
  · intro members signaturesAbsent unsignedAbsent older
    have noSignatures := Json.get?_of_absent signaturesAbsent
    have noUnsigned := Json.get?_of_absent unsignedAbsent
    obtain ⟨value, signed, -, added⟩ := sign_of_keyring inKeyring found pair (codec.write (.object members))
    refine ⟨codec.write (addSignatures (older ++ [pubkey.signature value]) (.object members)),
      older ++ [pubkey.signature value], ?_, ?_⟩
    · rw [addSign_eq roundTrips, added]
      rfl
    constructor
    · intro verifies
      by_contra notPlain
      obtain ⟨all, verified⟩ := verifies []
      rw [verifySign_not_plain roundTrips noSignatures noUnsigned notPlain] at verified
      cases verified
    · intro plain received
      exact verifySign_signed roundTrips inKeyring found pair noSignatures noUnsigned signed plain older received []

theorem verifySign_addSign_example :
    ∃ output signatures,
      addSign compactJson exampleSodium exampleKeyring (compactJson.write (.object [])) (exampleSigner (ascii "localhost"))
          [⟨ascii "localhost", ascii "ed25519:0", ascii "older"⟩] = .ok (output, signatures) ∧
        ((∀ received, ∃ all,
          verifySign compactJson exampleSodium exampleKeyring output (exampleSigner (ascii "localhost")) [] received =
            .ok (compactJson.write (.object []), [], all)) ↔ PlainNames (exampleSigner (ascii "localhost"))) :=
  (verifySign_addSign_iff compactJson_roundTrips rfl rfl exampleKey_isPair).2 [] (by simp) (by simp)
    [⟨ascii "localhost", ascii "ed25519:0", ascii "older"⟩]

/-- An owner with a NUL in its name is not found again, although the signature is in the output. -/
theorem verifySign_addSign_nul :
    (do
      let (output, _) ← addSign compactJson exampleSodium exampleKeyring (compactJson.write (.object []))
        (exampleSigner [97, 0, 98]) []
      let (text, _) ← verifySign compactJson exampleSodium exampleKeyring output (exampleSigner [97, 0, 98]) [] []
      return text) = .error (.sydent "Invalid Json no signature" mBadJson) := by decide +kernel

section Unsigned

variable {codec : JsonCodec D} {sodium : Sodium} {keyring : KeyRing} {pubkey : PubKeyT}

theorem signedjson2unsigned_of_verifySign {input uoutput output uresult : Bytes} {received all : SignatureListT}
    (verified : verifySign codec sodium keyring input pubkey uoutput received = .ok (output, uresult, all)) :
    signedjson2unsigned codec input uoutput received = .ok (output, uresult, all) := by
  rw [verifySign] at verified
  split at verified
  · cases verified
  · next parsed =>
    split at verified
    · cases verified
    · obtain ⟨mykey, -, verified⟩ := bind_eq_ok.mp verified
      obtain ⟨accepted, -, verified⟩ := bind_eq_ok.mp verified
      split at verified
      · cases verified
        exact parsed
      · cases verified

/-- The message that goes in as unsigned is lost: `null` comes out, which is no message. -/
theorem not_verifySignMsgUnsigned (roundTrips : codec.RoundTrips) (writesNull : codec.write .null = ascii "null")
    (m u : MessageType) (msg umsg : Message) {result uresult : Message} {output : Bytes}
    {older signatures received all : SignatureListT}
    (signed : addSignMsgUnsigned protoPool codec sodium keyring m msg umsg pubkey [] older =
      .ok (output, signatures)) :
    verifySignMsgUnsigned protoPool codec sodium keyring m u output pubkey .empty .empty received ≠
      .ok (result, uresult, all) := by
  intro verified
  obtain ⟨signature, -, signed⟩ := bind_eq_ok.mp signed
  cases signed
  obtain ⟨⟨text, uoutput, found⟩, checked, verified⟩ := bind_eq_ok.mp verified
  have created : ((addSignatures (older ++ [signature]) (parseMsg (D := D) protoPool m msg)).create
      unsignedName).get? unsignedName = some .null := by
    rw [Json.get?_create, get?_addSignatures_of_ne unsignedName_ne, get?_parseMsg (field_ne_unsigned m),
      Option.getD_none]
  have parsed := signedjson2unsigned_of_verifySign checked
  rw [pb2signedjsonUnsigned, List.nil_append] at parsed
  obtain ⟨-, rfl⟩ := signedjson2unsigned_eq_ok roundTrips parsed
  rw [created, Option.map_some, Option.getD_some, List.nil_append] at verified
  have written : (codec.write .null).length ≠ 0 := by
    rw [writesNull]
    decide
  simp only [if_neg written, json2pb_null roundTrips] at verified
  split at verified <;> cases verified

/-- The text of an object that goes in as unsigned does not come out. If it is not too short it has to be empty,
and then `null` comes out. -/
theorem not_verifySignUnsigned (roundTrips : codec.RoundTrips) {members umembers : List (Bytes × Json D)}
    {uinput output : Bytes} (isObject : codec.parse (cString uinput) = .ok (.object umembers)) (notEmpty : uinput ≠ [])
    {older signatures received all : SignatureListT}
    (signed : addSignUnsigned codec sodium keyring (codec.write (.object members)) uinput pubkey older =
      .ok (output, signatures)) :
    verifySign codec sodium keyring output pubkey [] received ≠
      .ok (codec.write (.object members), uinput, all) := by
  intro verified
  have parsed := signedjson2unsigned_of_verifySign verified
  obtain ⟨signature, -, signed⟩ := bind_eq_ok.mp signed
  by_cases short : uinput.length ≤ 2
  · simp only [unsigned2signedjson_of_short roundTrips _ short] at signed
    cases signed
    obtain ⟨text, unsign⟩ := signedjson2unsigned_eq_ok roundTrips parsed
    rw [eraseMember_addSignatures] at text
    rw [get?_addSignatures_of_ne unsignedName_ne, get?_of_erased roundTrips text.symm] at unsign
    exact notEmpty unsign
  · simp only at signed
    split at signed
    · next made =>
      cases signed
      obtain ⟨unsign, appended, rfl⟩ := unsigned2signedjson_of_long roundTrips (not_le.mp short) isObject made
      obtain ⟨text, written⟩ := signedjson2unsigned_eq_ok roundTrips parsed
      rw [eraseMember_setUnsigned] at text
      rw [get?_of_erased roundTrips text.symm] at appended
      have present : ((addSignatures (older ++ [signature]) (Json.object members)).create
          unsignedName).get? unsignedName = some .null := by
        rw [Json.get?_create, get?_addSignatures_of_ne unsignedName_ne, get?_of_erased roundTrips text.symm]
        rfl
      rw [Json.get?_setMember _ _ (by rw [present]; rfl)] at written
      cases umembers with
      | nil =>
        cases appended
        rw [written, Option.map_some, Option.getD_some, List.nil_append, roundTrips] at isObject
        cases isObject
      | cons => cases appended
    · cases signed

end Unsigned

/-- With an unsigned part, `VerifySign` never gives back what went into `AddSign`, neither for messages nor for
texts of objects. -/
theorem addSignUnsigned_not_verified {codec : JsonCodec D} (roundTrips : codec.RoundTrips)
    (writesNull : codec.write .null = ascii "null") (sodium : Sodium) (keyring : KeyRing) (pubkey : PubKeyT)
    (older received : SignatureListT) :
    (∀ (m u : MessageType) (msg umsg : Message), ¬ ∃ output signatures all,
      addSignMsgUnsigned protoPool codec sodium keyring m msg umsg pubkey [] older = .ok (output, signatures) ∧
        verifySignMsgUnsigned protoPool codec sodium keyring m u output pubkey .empty .empty received =
          .ok (msg, umsg, all)) ∧
    (∀ (members umembers : List (Bytes × Json D)) (uinput : Bytes),
      codec.parse (cString uinput) = .ok (.object umembers) → uinput ≠ [] → ¬ ∃ output signatures all,
        addSignUnsigned codec sodium keyring (codec.write (.object members)) uinput pubkey older =
            .ok (output, signatures) ∧
          verifySign codec sodium keyring output pubkey [] received =
            .ok (codec.write (.object members), uinput, all)) := by
  constructor
  · rintro m u msg umsg ⟨output, signatures, all, signed, verified⟩
    exact not_verifySignMsgUnsigned roundTrips writesNull m u msg umsg signed verified
  · rintro members umembers uinput isObject notEmpty ⟨output, signatures, all, signed, verified⟩
    exact not_verifySignUnsigned roundTrips isObject notEmpty signed verified

/-- The text of an object with a member throws, and an empty object comes out as `null`. -/
theorem addSignUnsigned_not_verified_example :
    ¬ ∃ output signatures all,
      addSignUnsigned compactJson exampleSodium exampleKeyring (compactJson.write (.object []))
          (compactJson.write (.object [(ascii "a", .null)])) (exampleSigner (ascii "localhost")) [] =
          .ok (output, signatures) ∧
        verifySign compactJson exampleSodium exampleKeyring output (exampleSigner (ascii "localhost")) [] [] =
          .ok (compactJson.write (.object []), compactJson.write (.object [(ascii "a", .null)]), all) :=
  (addSignUnsigned_not_verified compactJson_roundTrips rfl exampleSodium exampleKeyring
    (exampleSigner (ascii "localhost")) [] []).2 [] [(ascii "a", .null)] _ (compactJson_roundTrips _) (by decide)

theorem addSignUnsigned_throws :
    addSignUnsigned compactJson exampleSodium exampleKeyring (ascii "\x7b\x7d") (ascii "\x7b\"a\":1\x7d")
      (exampleSigner (ascii "localhost")) [] = .error .badJson := by decide +kernel

end SignedJson

end Identt.Query
