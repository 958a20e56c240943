import Identt.Query.SignedJson

/-! # Keys that come with a request

A request may bring its own key, and then signing needs the secret half of it and verifying the public one. But
`GetSigner` makes a pair for either purpose, so signing fails without a public key, and what is wrong with a secret
key shows when a signature is verified.
-/

namespace Identt.Query

open Crypto

variable {D : Type}

namespace SignedJson

/-- Signing succeeds with the secret key, for messages and for texts that the signature can be added to. -/
structure SignsWith (codec : JsonCodec D) (sodium : Sodium) (keyring : KeyRing) (pubkey : PubKeyT) (secret : Bytes) :
    Prop where
  message : ∀ (m : MessageType) (msg : Message) (output : Bytes) (older : SignatureListT),
    let signatures := older ++
      [pubkey.signature (b64EncodeStrip (sodium.signDetached (pb2json protoPool codec m msg) secret))]
    addSignMsg protoPool codec sodium keyring m msg pubkey output older =
      .ok (pb2signedjson protoPool codec m msg output signatures, signatures)
  messageUnsigned : ∀ (m : MessageType) (msg umsg : Message) (output : Bytes) (older : SignatureListT),
    let signatures := older ++
      [pubkey.signature (b64EncodeStrip (sodium.signDetached (pb2json protoPool codec m msg) secret))]
    addSignMsgUnsigned protoPool codec sodium keyring m msg umsg pubkey output older =
      .ok (pb2signedjsonUnsigned protoPool codec m msg umsg output signatures, signatures)
  text : ∀ (input uinput output : Bytes) (older : SignatureListT),
    let signatures := older ++ [pubkey.signature (b64EncodeStrip (sodium.signDetached input secret))]
    unsigned2signedjson codec input uinput signatures = .ok output →
      addSignUnsigned codec sodium keyring input uinput pubkey older = .ok (output, signatures)

/-- The two keys verify alike, for texts and for messages. -/
structure VerifyAlike (codec : JsonCodec D) (sodium : Sodium) (keyring : KeyRing) (pubkey pubkey' : PubKeyT) : Prop where
  text : ∀ (input uoutput : Bytes) (received : SignatureListT),
    verifySign codec sodium keyring input pubkey uoutput received =
      verifySign codec sodium keyring input pubkey' uoutput received
  message : ∀ (m : MessageType) (input : Bytes) (result : Message) (received : SignatureListT),
    verifySignMsg protoPool codec sodium keyring m input pubkey result received =
      verifySignMsg protoPool codec sodium keyring m input pubkey' result received
  messageUnsigned : ∀ (m u : MessageType) (input : Bytes) (result uresult : Message) (received : SignatureListT),
    verifySignMsgUnsigned protoPool codec sodium keyring m u input pubkey result uresult received =
      verifySignMsgUnsigned protoPool codec sodium keyring m u input pubkey' result uresult received

/-- What is wrong with a pair of keys whose public half has been decoded. -/
def secretFailure (pub privateKey : Bytes) : Option Exn :=
  match b64SanitDecode privateKey with
  | .error e => some e
  | .ok secret =>
    if pub.length ≠ 32 then some (.badData "Bad Public Key")
    else if secret.length ≠ 64 then some (.badData "Bad Secret Key")
    else none

section Pair

variable {keyring : KeyRing} {pubkey : PubKeyT} (own : pubkey.noKeyring = true)

include own

/-- For either purpose a pair is made. -/
theorem getSigner_own {scope : ℕ} (isScope : scope = scopeSignit ∨ scope = scopeVerify) :
    getSigner keyring pubkey scope = createPair pubkey.algo pubkey.publicKey pubkey.privateKey := by
  rcases isScope with rfl | rfl <;> rw [getSigner, if_neg (by rw [own]; decide), if_pos (by decide)]

/-- A pair is made when both halves have their lengths. -/
theorem getSigner_own_eq_ok_iff {scope : ℕ} (isScope : scope = scopeSignit ∨ scope = scopeVerify) {key : Ed25519} :
    getSigner keyring pubkey scope = .ok key ↔ pubkey.algo = Ed25519.getAlgo ∧ ∃ pub secret,
      b64SanitDecode pubkey.publicKey = .ok pub ∧ b64SanitDecode pubkey.privateKey = .ok secret ∧ pub.length = 32 ∧
        secret.length = 64 ∧ key = { pubkey := pub, seckey := secret, scope := scopeAll } := by
  rw [getSigner_own own isScope, createPair]
  by_cases algo : pubkey.algo = Ed25519.getAlgo
  · rw [if_pos algo, and_iff_right algo]
    constructor
    · intro made
      obtain ⟨pub, ofPublic, made⟩ := bind_eq_ok.mp made
      obtain ⟨secret, ofPrivate, made⟩ := bind_eq_ok.mp made
      by_cases pubLength : pub.length = 32
      · by_cases secretLength : secret.length = 64
        · rw [if_neg (not_not.mpr pubLength), if_neg (not_not.mpr secretLength)] at made
          cases made
          exact ⟨pub, secret, ofPublic, ofPrivate, pubLength, secretLength, rfl⟩
        · rw [if_neg (not_not.mpr pubLength), if_pos secretLength] at made
          cases made
      · rw [if_pos pubLength] at made
        cases made
    · rintro ⟨pub, secret, ofPublic, ofPrivate, pubLength, secretLength, rfl⟩
      rw [Ed25519.ofPair, ofPublic, ofPrivate]
      simp only [bind, Except.bind, pubLength, secretLength, ne_eq, not_true_eq_false, if_false]
      rfl
  · rw [if_neg algo]
    simp [algo]

/-- What fails when a public key that can be decoded comes with a secret one. -/
theorem getSigner_own_eq_error {pub : Bytes} (ofPublic : b64SanitDecode pubkey.publicKey = .ok pub)
    (algo : pubkey.algo = Ed25519.getAlgo) {e : Exn} (failure : secretFailure pub pubkey.privateKey = some e) :
    getSigner keyring pubkey scopeVerify = .error e := by
  rw [getSigner_own own (.inr rfl), createPair, if_pos algo, Ed25519.ofPair, ofPublic]
  rw [secretFailure] at failure
  cases ofPrivate : b64SanitDecode pubkey.privateKey with
  | error e' =>
    rw [ofPrivate] at failure
    cases failure
    rfl
  | ok secret =>
    simp only [ofPrivate] at failure
    by_cases pubLength : pub.length = 32
    · rw [if_neg (not_not.mpr pubLength), Option.ite_none_right_eq_some] at failure
      obtain ⟨secretLength, same⟩ := failure
      cases same
      simp only [bind, Except.bind, pubLength, secretLength, ne_eq, not_true_eq_false, not_false_eq_true, if_false,
        if_true]
      rfl
    · rw [if_pos pubLength] at failure
      cases failure
      simp only [bind, Except.bind, pubLength, ne_eq, not_false_eq_true, if_true]
      rfl

omit own in
theorem secretFailure_eq_none {pub privateKey : Bytes} : secretFailure pub privateKey = none ↔
    ∃ secret, b64SanitDecode privateKey = .ok secret ∧ pub.length = 32 ∧ secret.length = 64 := by
  rw [secretFailure]
  cases b64SanitDecode privateKey with
  | error e => simp
  | ok secret =>
    simp only [Except.ok.injEq, exists_eq_left']
    split_ifs <;> simp_all

omit own in
theorem secretFailure_ne_sydent {pub privateKey : Bytes} {msg : String} {ecode : ℕ} :
    secretFailure pub privateKey ≠ some (.sydent msg ecode) := by
  rw [secretFailure]
  cases decoded : b64SanitDecode privateKey with
  | error e =>
    rw [b64SanitDecode] at decoded
    split at decoded
    · cases decoded
    · rw [b64Failure] at decoded
      split_ifs at decoded <;> cases decoded <;> simp
  | ok secret =>
    dsimp only
    split_ifs <;> simp

/-- What the key says of a signature. -/
theorem verdict_eq {pub : Bytes} (ofPublic : b64SanitDecode pubkey.publicKey = .ok pub) (sodium : Sodium)
    (signa output : Bytes) :
    (getSigner keyring pubkey scopeVerify >>= fun mykey => mykey.verifySignature sodium signa output) =
      if pubkey.algo = Ed25519.getAlgo then
        match secretFailure pub pubkey.privateKey with
        | some e => .error e
        | none => (b64SanitDecode signa).map fun decoded => sodium.verifyDetached decoded output pub
      else .error (.badCode "Bogus Algo") := by
  by_cases algo : pubkey.algo = Ed25519.getAlgo
  · rw [if_pos algo]
    cases failure : secretFailure pub pubkey.privateKey with
    | some e =>
      rw [getSigner_own_eq_error own ofPublic algo failure]
      rfl
    | none =>
      obtain ⟨secret, ofPrivate, pubLength, secretLength⟩ := secretFailure_eq_none.mp failure
      rw [(getSigner_own_eq_ok_iff own (.inr rfl)).mpr
        ⟨algo, pub, secret, ofPublic, ofPrivate, pubLength, secretLength, rfl⟩]
      change Ed25519.verifySignature sodium _ signa output = _
      rw [Ed25519.verifySignature, if_neg (show ¬ scopeAll &&& scopeVerify = 0 by decide)]
  · rw [getSigner_own own (.inr rfl), createPair, if_neg algo, if_neg algo]
    rfl

/-- A pair signs with its secret half. -/
theorem sign_own {pub secret : Bytes} (algo : pubkey.algo = Ed25519.getAlgo)
    (ofPublic : b64SanitDecode pubkey.publicKey = .ok pub) (pubLength : pub.length = 32)
    (ofPrivate : b64SanitDecode pubkey.privateKey = .ok secret) (secretLength : secret.length = 64) (sodium : Sodium)
    (input : Bytes) :
    sign sodium keyring input pubkey = .ok (pubkey.signature (b64EncodeStrip (sodium.signDetached input secret))) := by
  rw [sign, (getSigner_own_eq_ok_iff own (.inl rfl)).mpr
    ⟨algo, pub, secret, ofPublic, ofPrivate, pubLength, secretLength, rfl⟩]
  change (Ed25519.getSignature sodium _ input >>= fun value => pure (pubkey.signature value)) = _
  rw [Ed25519.getSignature, if_neg (show ¬ scopeAll &&& scopeSignit = 0 by decide)]
  rfl

/-- Signing needs the public key. -/
theorem signsWith_iff (codec : JsonCodec D) (sodium : Sodium) {secret : Bytes}
    (ofPrivate : b64SanitDecode pubkey.privateKey = .ok secret) (secretLength : secret.length = 64) :
    SignsWith codec sodium keyring pubkey secret ↔
      pubkey.algo = Ed25519.getAlgo ∧ ∃ pub, b64SanitDecode pubkey.publicKey = .ok pub ∧ pub.length = 32 := by
  constructor
  · intro signs
    have signed := signs.message .requestTokenT .empty [] []
    obtain ⟨signature, made, -⟩ := bind_eq_ok.mp signed
    obtain ⟨mykey, found, -⟩ := bind_eq_ok.mp made
    obtain ⟨algo, pub, _, ofPublic, _, pubLength, _⟩ := (getSigner_own_eq_ok_iff own (.inl rfl)).mp found
    exact ⟨algo, pub, ofPublic, pubLength⟩
  · rintro ⟨algo, pub, ofPublic, pubLength⟩
    have signed := @sign_own keyring pubkey own pub secret algo ofPublic pubLength ofPrivate secretLength sodium
    refine ⟨fun m msg output older => ?_, fun m msg umsg output older => ?_, fun input uinput output older => ?_⟩
    · rw [addSignMsg, signed]
      rfl
    · rw [addSignMsgUnsigned, signed]
      rfl
    · exact addSignUnsigned_of_sign (signed input)

omit own in
/-- Two keys with one name that say the same of every signature verify alike. -/
theorem verifyAlike_of_verdicts (codec : JsonCodec D) (sodium : Sodium) {pubkey' : PubKeyT}
    (sameOwner : pubkey.owner = pubkey'.owner) (samePkid : pubkey.pkid = pubkey'.pkid)
    (verdicts : ∀ signa output,
      (getSigner keyring pubkey scopeVerify >>= fun mykey => mykey.verifySignature sodium signa output) =
        getSigner keyring pubkey' scopeVerify >>= fun mykey => mykey.verifySignature sodium signa output) :
    VerifyAlike codec sodium keyring pubkey pubkey' := by
  have text (input uoutput : Bytes) (received : SignatureListT) :
      verifySign codec sodium keyring input pubkey uoutput received =
        verifySign codec sodium keyring input pubkey' uoutput received := by
    rw [verifySign, verifySign, ← sameOwner, ← samePkid]
    split
    · rfl
    · next output _ _ _ =>
      split
      · rfl
      · next signa _ =>
        rw [← bind_assoc, ← bind_assoc, verdicts signa output]
  refine ⟨text, fun m input result received => ?_, fun m u input result uresult received => ?_⟩
  · rw [verifySignMsg, verifySignMsg, text]
  · rw [verifySignMsgUnsigned, verifySignMsgUnsigned, text]

/-- How an object is checked with a signature of the key that decodes to nothing. -/
theorem verifySign_blank {codec : JsonCodec D} (roundTrips : codec.RoundTrips) (sodium : Sodium) {pub : Bytes}
    (ofPublic : b64SanitDecode pubkey.publicKey = .ok pub) (algo : pubkey.algo = Ed25519.getAlgo) :
    verifySign codec sodium keyring (codec.write (addSignatures [] (.object []))) pubkey [] [pubkey.signature []] =
      match secretFailure pub pubkey.privateKey with
      | some e => .error e
      | none =>
        if sodium.verifyDetached [] (codec.write (.object [])) pub then
          .ok (codec.write (.object []), [], [pubkey.signature []])
        else .error (.sydent "Invalid Signature" mBadJson) := by
  have found := findSignature_append pubkey [] []
  have checked := @verdict_eq keyring pubkey own pub ofPublic sodium [] (codec.write (.object []))
  rw [if_pos algo] at checked
  rw [verifySign, signedjson2unsigned_addSignatures roundTrips rfl rfl]
  rw [List.nil_append] at found
  simp only [List.map_nil, List.append_nil, found]
  rw [← bind_assoc, checked]
  cases secretFailure pub pubkey.privateKey with
  | some e => rfl
  | none =>
    have decoded : b64SanitDecode [] = .ok [] := rfl
    rw [decoded]
    rfl

end Pair

/-- Verifying alone depends on what is wrong with the secret key. -/
theorem verifyAlike_iff {codec : JsonCodec D} (roundTrips : codec.RoundTrips) (sodium : Sodium) {keyring : KeyRing}
    {pubkey : PubKeyT} (own : pubkey.noKeyring = true) {pub : Bytes}
    (ofPublic : b64SanitDecode pubkey.publicKey = .ok pub) (other : Bytes) :
    VerifyAlike codec sodium keyring pubkey { pubkey with privateKey := other } ↔
      (pubkey.algo = Ed25519.getAlgo → secretFailure pub pubkey.privateKey = secretFailure pub other) := by
  constructor
  · intro alike algo
    have same := alike.text (codec.write (addSignatures [] (.object []))) [] [pubkey.signature []]
    have blank := @verifySign_blank D keyring pubkey own codec roundTrips sodium pub ofPublic algo
    have blank' := @verifySign_blank D keyring { pubkey with privateKey := other } own codec roundTrips sodium pub
      ofPublic algo
    replace same := (blank.symm.trans same).trans blank'
    dsimp only at same
    cases failure : secretFailure pub pubkey.privateKey with
    | some e =>
      cases failure' : secretFailure pub other with
      | some e' =>
        rw [failure, failure'] at same
        exact congrArg some (Except.error.inj same)
      | none =>
        rw [failure, failure'] at same
        dsimp only at same
        split at same
        · cases same
        · exact (secretFailure_ne_sydent (failure.trans (congrArg some (Except.error.inj same)))).elim
    | none =>
      cases failure' : secretFailure pub other with
      | some e' =>
        rw [failure, failure'] at same
        dsimp only at same
        split at same
        · cases same
        · exact (secretFailure_ne_sydent (failure'.trans (congrArg some (Except.error.inj same.symm)))).elim
      | none => rfl
  · intro alike
    refine verifyAlike_of_verdicts codec sodium rfl rfl fun signa output => ?_
    have first := @verdict_eq keyring pubkey own pub ofPublic sodium signa output
    have second := @verdict_eq keyring { pubkey with privateKey := other } own pub ofPublic sodium signa output
    rw [first, second]
    by_cases algo : pubkey.algo = Ed25519.getAlgo
    · rw [if_pos algo, if_pos algo, alike algo]
    · rw [if_neg algo, if_neg algo]

/-- With a key that comes with the request, signing needs the public half as well, and verifying is the same for two
secret halves just when they fail alike. -/
theorem own_key_scopes {codec : JsonCodec D} (roundTrips : codec.RoundTrips) (sodium : Sodium) (keyring : KeyRing)
    {pubkey : PubKeyT} (own : pubkey.noKeyring = true) :
    (∀ secret, b64SanitDecode pubkey.privateKey = .ok secret → secret.length = 64 →
      (SignsWith codec sodium keyring pubkey secret ↔
        pubkey.algo = Ed25519.getAlgo ∧ ∃ pub, b64SanitDecode pubkey.publicKey = .ok pub ∧ pub.length = 32)) ∧
    (∀ pub, b64SanitDecode pubkey.publicKey = .ok pub → ∀ other,
      (VerifyAlike codec sodium keyring pubkey { pubkey with privateKey := other } ↔
        (pubkey.algo = Ed25519.getAlgo → secretFailure pub pubkey.privateKey = secretFailure pub other))) :=
  ⟨fun _ ofPrivate secretLength => signsWith_iff own codec sodium ofPrivate secretLength,
    fun _ ofPublic other => verifyAlike_iff roundTrips sodium own ofPublic other⟩

/-- A key whose secret half comes with the request and whose public half is missing. -/
def signerAlone : PubKeyT where
  algo := ascii "ed25519"
  identifier := ascii "0"
  owner := ascii "unknown"
  privateKey := b64EncodeStrip (List.replicate 64 7)
  noKeyring := true

/-- Nothing is signed with it. -/
theorem addSign_alone :
    addSignMsg protoPool compactJson exampleSodium exampleKeyring .toSignQueryT .empty signerAlone [] [] =
      .error (.badData "Bad Public Key") := by
  have ofPrivate : b64SanitDecode signerAlone.privateKey = .ok (List.replicate 64 7) := b64SanitDecode_encodeStrip _
  have ofPublic : b64SanitDecode signerAlone.publicKey = .ok [] := rfl
  have failed : getSigner exampleKeyring signerAlone scopeSignit = .error (.badData "Bad Public Key") := by
    have algo : signerAlone.algo = Ed25519.getAlgo := rfl
    rw [getSigner_own rfl (.inl rfl), createPair, if_pos algo, Ed25519.ofPair, ofPublic, ofPrivate]
    rfl
  rw [addSignMsg, sign, failed]
  rfl

/-- With the public half it signs, and then verifying fails when the secret half is left out. -/
theorem own_key_scopes_alone :
    SignsWith compactJson exampleSodium exampleKeyring
        { signerAlone with publicKey := b64EncodeStrip (List.replicate 32 7) } (List.replicate 64 7) ∧
      ¬ VerifyAlike compactJson exampleSodium exampleKeyring
        { signerAlone with publicKey := b64EncodeStrip (List.replicate 32 7) }
        { signerAlone with publicKey := b64EncodeStrip (List.replicate 32 7), privateKey := [] } := by
  have own : { signerAlone with publicKey := b64EncodeStrip (List.replicate 32 7) }.noKeyring = true := rfl
  have ofPublic : b64SanitDecode (b64EncodeStrip (List.replicate 32 7)) = .ok (List.replicate 32 7) :=
    b64SanitDecode_encodeStrip _
  have ofPrivate : b64SanitDecode signerAlone.privateKey = .ok (List.replicate 64 7) := b64SanitDecode_encodeStrip _
  have scopes := own_key_scopes compactJson_roundTrips exampleSodium exampleKeyring own
  constructor
  · exact (scopes.1 _ ofPrivate List.length_replicate).mpr ⟨rfl, _, ofPublic, List.length_replicate⟩
  · intro alike
    have same := (scopes.2 _ ofPublic []).mp alike rfl
    have sound : secretFailure (List.replicate 32 7) signerAlone.privateKey = none :=
      secretFailure_eq_none.mpr ⟨_, ofPrivate, List.length_replicate, List.length_replicate⟩
    exact Option.some_ne_none _ (same.symm.trans sound)

end SignedJson

end Identt.Query
