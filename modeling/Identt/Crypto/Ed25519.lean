import Identt.Query.Bin2Ascii

/-! # Signing keys (`Ed25519`)

A key keeps its two halves as bytes and what it may be used for. Signatures and keys are passed around in base64
without filler. The two functions of libsodium that sign and verify are parameters.
-/

namespace Identt.Crypto

open Query

/-- `crypto_sign_ed25519_detached` for a text and a secret key, and `crypto_sign_ed25519_verify_detached` for a
signature, a text and a public key. -/
structure Sodium where
  signDetached : Bytes → Bytes → Bytes
  verifyDetached : Bytes → Bytes → Bytes → Bool

/-! `IDENTT_CRYPTO_SCOPE_SIGNIT` and its like. -/

def scopeEncode : ℕ := 1

def scopeDecode : ℕ := 2

def scopeSignit : ℕ := 4

def scopeVerify : ℕ := 8

def scopeAll : ℕ := 15

structure Ed25519 where
  pubkey : Bytes := []
  seckey : Bytes := []
  scope : ℕ := 0
deriving DecidableEq, Repr, Inhabited

namespace Ed25519

def getAlgo : Bytes := ascii "ed25519"

/-- The constructor with two keys. -/
def ofPair (pubkey seckey : Bytes) : Except Exn Ed25519 := do
  let pubkey ← b64SanitDecode pubkey
  let seckey ← b64SanitDecode seckey
  if pubkey.length ≠ 32 then throw (.badData "Bad Public Key")
  if seckey.length ≠ 64 then throw (.badData "Bad Secret Key")
  return { pubkey := pubkey, seckey := seckey, scope := scopeAll }

/-- The constructor with one key, which is for one purpose. -/
def ofKey (scope : ℕ) (onekey : Bytes) : Except Exn Ed25519 := do
  if scope &&& scopeEncode ≠ 0 then return { scope := scopeEncode, seckey := ← b64SanitDecode onekey }
  else if scope &&& scopeDecode ≠ 0 then return { scope := scopeDecode, pubkey := ← b64SanitDecode onekey }
  else if scope &&& scopeSignit ≠ 0 then return { scope := scopeSignit, seckey := ← b64SanitDecode onekey }
  else if scope &&& scopeVerify ≠ 0 then return { scope := scopeVerify, pubkey := ← b64SanitDecode onekey }
  else throw (.badCode "Undefined constructor for ED25519")

def getPublicKey (key : Ed25519) : Bytes := b64EncodeStrip key.pubkey

variable (sodium : Sodium) (key : Ed25519)

def getSignature (input : Bytes) : Except Exn Bytes :=
  if key.scope &&& scopeSignit = 0 then .error (.badCode "This class cannot sign")
  else .ok (b64EncodeStrip (sodium.signDetached input key.seckey))

def verifySignature (signature input : Bytes) : Except Exn Bool :=
  if key.scope &&& scopeVerify = 0 then .error (.badCode "This class cannot verify")
  else (b64SanitDecode signature).map fun decoded => sodium.verifyDetached decoded input key.pubkey

/-- A pair of keys, of which the public one accepts what the secret one signs. -/
structure IsPair : Prop where
  scope : key.scope = scopeAll
  accepts : ∀ input signature, key.getSignature sodium input = .ok signature →
    key.verifySignature sodium signature input = .ok true

/-- No text is accepted with the signature of another one. -/
def SignsOne : Prop :=
  ∀ input signature other, key.getSignature sodium input = .ok signature →
    key.verifySignature sodium signature other = .ok true → other = input

variable {sodium key}

theorem IsPair.getSignature (pair : key.IsPair sodium) (input : Bytes) :
    key.getSignature sodium input = .ok (b64EncodeStrip (sodium.signDetached input key.seckey)) := by
  rw [Ed25519.getSignature, pair.scope]
  rfl

/-- Signatures survive as C strings. -/
theorem cString_of_getSignature {input signature : Bytes}
    (signed : key.getSignature sodium input = .ok signature) : cString signature = signature := by
  rw [Ed25519.getSignature] at signed
  split at signed
  · cases signed
  · cases signed
    exact cString_of_ne_zero (b64EncodeStrip_ne_zero _)

end Ed25519

/-! `CryptoTraits::Create`; there is one algorithm. -/

def createPair (ctype pkey skey : Bytes) : Except Exn Ed25519 :=
  if ctype = Ed25519.getAlgo then Ed25519.ofPair pkey skey else .error (.badCode "Bogus Algo")

def createSingle (ctype : Bytes) (scope : ℕ) (key : Bytes) : Except Exn Ed25519 :=
  if ctype = Ed25519.getAlgo then Ed25519.ofKey scope key else .error (.badCode "Bogus Algo")

end Identt.Crypto
