import Identt.Store.Service

/-! # Requesting and submitting validation tokens (`ValidateService`)

A request opens a session for an address and a client secret, or finds the one that is stored, and
sends a token to the address; submitting the token validates the session. A session is looked up by
the key that joins medium, address and secret, and its validity is a flag and the time of the last
write that the flag's reader cares about.
-/

namespace Identt.Store

open Query

namespace ValidateService

/-- `::tolower` in the C locale. -/
def toLower (c : UInt8) : UInt8 := if 65 ≤ c ∧ c ≤ 90 then c + 32 else c

/-- `ValidIsdCodes`. -/
def validIsdCodes : List (Bytes × Bytes) :=
  [(ascii "IN", ascii "91"), (ascii "US", ascii "1"), (ascii "CA", ascii "1"), (ascii "GB", ascii "44"),
    (ascii "AE", ascii "971")]

/-- A phone number without its international prefix. -/
def stripMark (phoneNumber : Bytes) : Bytes :=
  if phoneNumber.take 1 = ascii "+" then phoneNumber.drop 1
  else if phoneNumber.take 2 = ascii "00" then phoneNumber.drop 2
  else phoneNumber

/-- Validate the medium and return the address to use. -/
def populateAddress (reqtok : RequestTokenT) (medium : Bytes) : Except Exn Bytes :=
  if medium = ascii "email" then
    if reqtok.email.length < 5 then .error (.sydent "Invalid Email" mInvalidEmail)
    else .ok (reqtok.email.map toLower)
  else if medium = ascii "msisdn" then
    if reqtok.phoneNumber.length < 5 then .error (.sydent "Invalid Phone No" mInvalidPhoneNumber)
    else if reqtok.country.length ≠ 2 then
      .error (.sydent "Only 2 letter country code supported" mInvalidPhoneNumber)
    else
      match validIsdCodes.lookup reqtok.country with
      | none => .error (.sydent "This country code is not supported" mInvalidPhoneNumber)
      | some isd =>
        let phoneNumber := stripMark reqtok.phoneNumber
        if phoneNumber.take isd.length ≠ isd then
          .error (.sydent "Number has different country code" mInvalidPhoneNumber)
        else .ok phoneNumber
  else .error (.sydent "Invalid Email or phone no type" mInvalidEmail)

/-- Fetch the existing session, and rekindle it if it expired, else insert a new one: the session,
whether it expired, and the transaction so far. -/
def openSession (st : SharedTable) (env : ActionEnv) (probe : ValidationSessionT) :
    ReadM (ValidationSessionT × Bool × TransactionT) := do
  let (found, valsession) ← validationSessionTable.getOne st.maindb probe
    .uValidationSessionMediumAddressClientSecret
  if found then
    if sessionValidLifetime < env.currtime - valsession.mtime then
      let valsession := { valsession with mtime := env.currtime }
      let transaction ← validationSessionTable.insert st.maindb valsession {} true "Cannot Insert vsession"
      return (valsession, true, transaction)
    else return (valsession, false, {})
  else
    let id ← ReadM.getNext
    let valsession := { valsession with id := id, mtime := env.currtime }
    let transaction ← validationSessionTable.insert st.maindb valsession {} false "Cannot Insert vsession"
    return (valsession, false, transaction)

/-- `std::setfill('1') << std::setw(6) << (currtime % 999999)`. -/
def makeToken (currtime : UInt64) : Bytes := (toString (currtime % 999999).toNat).leftpad 6 49

/-- The token to store for a session, a new one if `renew` says so. -/
def nextToken (rtoka : RequestTokenDataT) (currtime : UInt64) (renew : Bool) (id : ℕ) (tokenauth : TokenAuthT) :
    TokenAuthT :=
  { tokenauth with
    id := id
    sendAttemptNumber := rtoka.reqtok.sendAttempt
    token := if renew then makeToken currtime else tokenauth.token }

/-- The entry for the outgoing message. -/
def tokenMail (id : ℕ) (rtoka : RequestTokenDataT) (address : Bytes) (valsession : ValidationSessionT)
    (token : Bytes) : ParAvionT where
  id := id
  payload := some
    { id := id
      medium := rtoka.medium
      address := address
      actkey := .aAuthToken
      retry := rtoka.reqtok.sendAttempt
      mpone := some { sid := toString valsession.id, country := rtoka.reqtok.country, token := token } }

/-- Store the token, new if there was none or the session expired, and the message that carries it. -/
def sendToken (st : SharedTable) (env : ActionEnv) (rtoka : RequestTokenDataT) (address : Bytes)
    (valsession : ValidationSessionT) (expired found : Bool) (tokenauth : TokenAuthT)
    (transaction : TransactionT) : ReadM (TokenAuthT × TransactionT) := do
  let id ← takeId found tokenauth.id
  let tokenauth := nextToken rtoka env.currtime (!found || expired) id tokenauth
  let transaction ← tokenAuthTable.insert st.maindb tokenauth transaction found "Cannot Insert tokenauth"
  let mailId ← ReadM.getNext
  let mail := tokenMail mailId rtoka address valsession tokenauth.token
  let transaction ← parAvionTable.insert st.maindb mail transaction false "Cannot Insert paravion"
  return (tokenauth, transaction)

/-- What `RequestTokenAction` passes back. -/
def requestTokenReply (rtoka : RequestTokenDataT) (address : Bytes) (valsession : ValidationSessionT)
    (tokenauth : TokenAuthT) : RequestTokenDataT :=
  let ssid := { rtoka.ssid with success := true, sid := toString valsession.id }
  let ssid :=
    if rtoka.medium = ascii "msisdn" then { ssid with msisdn := address, intlFmt := ascii "+" ++ address }
    else ssid
  { rtoka with token := tokenauth.token, ssid := ssid }

def requestTokenAction (st : SharedTable) (env : ActionEnv) (rtoka : RequestTokenDataT) :
    ReadM (Prepared RequestTokenDataT) := do
  let address ← populateAddress rtoka.reqtok rtoka.medium
  let (valsession, expired, transaction) ← openSession st env
    { medium := rtoka.medium, address := address, clientSecret := rtoka.reqtok.clientSecret }
  let (found, tokenauth) ← tokenAuthTable.getOne st.maindb { validationSession := valsession.id }
    .uTokenAuthValidationSession
  -- generate token if no tokenauth, validation expired or send_attempt higher
  if !found || expired || tokenauth.sendAttemptNumber < rtoka.reqtok.sendAttempt then
    let (tokenauth, transaction) ←
      sendToken st env rtoka address valsession expired found tokenauth transaction
    return ⟨some transaction, fun _ => .ok (requestTokenReply rtoka address valsession tokenauth)⟩
  else return ⟨none, fun _ => .ok (requestTokenReply rtoka address valsession tokenauth)⟩

/-- The token that is stored for the session a caller names, and that session, checked against what
the caller presents. -/
def submittedSession (st : SharedTable) (env : ActionEnv) (subtok : SubmitTokenT) :
    Except Exn ValidationSessionT := do
  let sid ← stoul subtok.sid
  let (found, tokenauth) ← tokenAuthTable.getOne st.maindb { validationSession := sid }
    .uTokenAuthValidationSession
  require (found = true) (.sydent "Sid not found" mNoValidSession)
  require (tokenauth.token = subtok.token) (.sydent "Token does not match " mNoValidSession)
  let (found, valsession) ← validationSessionTable.getOne st.maindb { id := tokenauth.validationSession }
    .kValidationSession
  require (found = true) (.sydent "Session not found" mNoValidSession)
  require (valsession.clientSecret = subtok.clientSecret)
    (.sydent "Client secret does not match the one given when requesting the token" mIncorrectClientSecret)
  require (¬ sessionValidLifetime < env.currtime - valsession.mtime)
    (.sydent "This validation session has expired" mSessionExpired)
  return valsession

def submitTokenReply (stoka : SubmitTokenDataT) (text : String) : SubmitTokenDataT :=
  { stoka with result := { stoka.result with success := true, error := ascii text } }

def submitTokenAction (st : SharedTable) (env : ActionEnv) (stoka : SubmitTokenDataT) :
    ReadM (Prepared SubmitTokenDataT) := do
  let valsession ← submittedSession st env stoka.subtok
  if 0 < valsession.validated then
    return ⟨none, fun _ => .ok (submitTokenReply stoka "This session is already validated")⟩
  else
    let valsession := { valsession with validated := 1, mtime := env.currtime }
    let transaction ← validationSessionTable.insert st.maindb valsession {} true "Cannot Insert vsession"
    return ⟨some transaction, fun _ => .ok (submitTokenReply stoka "This session is now validated")⟩

end ValidateService

end Identt.Store
