import Identt.Hrpc.HrpcClient
import Identt.Hrpc.MasterEndpoint
import Identt.Query.BlobDataService
import Identt.Query.ProtoForm
import Identt.Query.TypedMessages
import Identt.Store.LookupService
import Identt.Store.PubKeyService
import Identt.Store.SameData

/-! # The endpoints for clients (`query/ServiceBase.hpp` and the services by it)

A request has its data as JSON or as a form in its body, or as a form in its path. Its endpoint checks them and
either has the answer from the node's own data, or hands an action to the master and makes the answer of what comes
back. Whatever is thrown on the way becomes the answer, which has the status of success like any other.
-/

namespace Identt.Query

open Crypto Store Hrpc

/-- What a `catch` clause has: the code that it reports and the text of the exception. -/
structure Caught where
  ecode : ℕ
  text : Bytes
deriving DecidableEq, Repr, Inhabited

/-- `SydentErrors`. -/
def sydentErrors : List (ℕ × Bytes) :=
  [(101, ascii "M_BAD_JSON"), (102, ascii "M_DESTINATION_REJECTED"), (103, ascii "M_EMAIL_SEND_ERROR"),
    (104, ascii "M_INCORRECT_CLIENT_SECRET"), (105, ascii "M_INVALID_EMAIL"), (106, ascii "M_INVALID_PARAM"),
    (107, ascii "M_INVALID_PHONE_NUMBER"), (108, ascii "M_MISSING_PARAMS"), (109, ascii "M_NOT_JSON"),
    (110, ascii "M_NO_VALID_SESSION"), (111, ascii "M_SESSION_EXPIRED"), (112, ascii "M_SESSION_NOT_VALIDATED"),
    (113, ascii "M_UNKNOWN"), (114, ascii "M_UNKNOWN_PEER"), (115, ascii "M_VERIFICATION_FAILED"),
    (116, ascii "THREEPID_IN_USE")]

def sydentCode (ecode : ℕ) : ℕ := if sydentErrorMin ≤ ecode ∧ ecode ≤ sydentErrorMax then ecode else mUnknown

def caught (e : Exn) : Caught where
  ecode :=
    match e with
    | .sydent _ ecode => sydentCode ecode
    | _ => mUnknown
  text := what e

/-- What the client of the master throws; the decoder's own text does not matter to anybody. -/
def caughtClient : ClientExn → Caught
  | .sydent text ecode => ⟨sydentCode ecode, text⟩
  | .badData text => ⟨mUnknown, text⟩
  | .runtimeError => ⟨mUnknown, ascii "Invalid base64 data size"⟩

def caughtForm : FormExn → Caught
  | .badQuery err => ⟨mUnknown, ascii err⟩
  | .badLexicalCast => ⟨mUnknown, ascii "bad lexical cast: source type value could not be interpreted as target"⟩

/-- The calls that throw the services' exceptions. -/
def within {α : Type} (result : Except Exn α) : Except Caught α := result.mapError caught

/-- A request behind the web server: `find` in its header, its body and the pieces of its path. -/
structure WebRequest where
  header : Bytes → Option Bytes := fun _ => none
  content : Bytes := []
  pathMatch : ℕ → Bytes := fun _ => []

/-- Which of its methods an endpoint is called by. -/
inductive Method where
  | post | get
deriving DecidableEq, Repr, Inhabited

/-- The libraries of the process. -/
structure WebLibs (D : Type) where
  json : JsonCodec D
  cast : LexicalCast
  order : HashOrder
  sodium : Sodium
  /-- The text of the exception of `at`. -/
  atFailure : Bytes

/-- What a node is configured with for its clients. -/
structure Site where
  sharedSecret : Bytes := []
  isReady : Bool := false
  lookupRequiresKey : Bool := false
  inviteRequiresKey : Bool := false
  keys : KeyEntries := []

/-- Check if request is JSON from Content-Type and Accept fields. -/
def jsonRequest (r : WebRequest) : Bool :=
  match (r.header (ascii "Content-Type")).or (r.header (ascii "Accept")) with
  | none => false
  | some value => value.take 16 = ascii "application/json"

/-- What an endpoint does with a request: an answer, or an action of the master. -/
inductive Handled where
  | page (output : Bytes)
  | action (request : MasterRequest)
deriving DecidableEq, Repr, Inhabited

variable {D : Type} (libs : WebLibs D) (site : Site) (st : SharedTable)

section Input

def readJson (m : MessageType) (r : WebRequest) : Except Caught Message :=
  match json2pb protoPool libs.json m r.content .empty with
  | .ok msg => .ok msg
  | .error failure => .error (caught (failure.exn fun _ => "Bad Json Format"))

def readForm (m : MessageType) (form : Bytes) : Except Caught Message :=
  (form2pb protoPool libs.cast libs.order m form .empty).mapError caughtForm

/-- The data of a request, of one by `GET` from a piece of its path. -/
def readInput (method : Method) (piece : ℕ) (m : MessageType) (r : WebRequest) : Except Caught Message :=
  match method with
  | .post => if jsonRequest r then readJson libs m r else readForm libs m r.content
  | .get => readForm libs m (r.pathMatch piece)

/-- The data of a request that has to be JSON. -/
def readJsonOnly (refusal : String) (m : MessageType) (r : WebRequest) : Except Caught Message :=
  if jsonRequest r then readJson libs m r else .error (caught (.sydent refusal mBadJson))

def requireReady : Except Caught Unit := within (require (site.isReady = true) (.badData "System Not Ready"))

def requireValue (name : String) (value : Bytes) : Except Caught Unit :=
  within (require (value ≠ []) (.sydent (name ++ " value required") mMissingParams))

/-- If a key is required it is a server request with the shared secret, else the access key is checked. -/
def checkAccess (requiresKey : Bool) (r : WebRequest) (accesskey : Bytes) : Except Caught Unit :=
  if requiresKey ∧ r.header (ascii "Shared-Secret") ≠ some site.sharedSecret then
    within (AccessKeyService.verifyAccessKeyAction st accesskey)
  else .ok ()

end Input

namespace Endpoints

/-! `ValidateService`. -/

def requestToken (method : Method) (r : WebRequest) : Except Caught Handled := do
  let reqtok ← readInput libs method 2 .requestTokenT r
  requireReady site
  return .action (.requestToken { reqtok := .ofMessage reqtok, medium := r.pathMatch 1 })

def submitToken (method : Method) (r : WebRequest) : Except Caught Handled := do
  let subtok ← readInput libs method 2 .submitTokenT r
  requireReady site
  return .action (.submitToken { subtok := .ofMessage subtok })

/-! `ThreePidService`. -/

def getValidated3pid (method : Method) (r : WebRequest) : Except Caught Handled := do
  let subtok := SubmitTokenT.ofMessage (← readInput libs method 1 .submitTokenT r)
  requireReady site
  if method = .post then
    requireValue "sid" subtok.sid
    requireValue "client_secret" subtok.clientSecret
  return .action (.getValidated3pid { subtok := subtok })

def bind (method : Method) (r : WebRequest) : Except Caught Handled := do
  let subtok := SubmitTokenT.ofMessage (← readInput libs method 1 .submitTokenT r)
  requireReady site
  requireValue "sid" subtok.sid
  requireValue "client_secret" subtok.clientSecret
  requireValue "mxid" subtok.mxid
  return .action (.bind3pid { subtok := subtok })

/-! `InviteService`. -/

def storeInvite (r : WebRequest) : Except Caught Handled := do
  let invqry ← readJsonOnly libs "Content-Type json only allowed" .inviteQueryT r
  requireReady site
  checkAccess site st site.inviteRequiresKey r (invqry.stringOf (ascii "accesskey"))
  return .action (.storeInvite { invqry := .ofMessage invqry })

/-! `MailSmsService`. -/

def getMailsToSend (r : WebRequest) : Except Caught Handled := do
  let mailq := Mail.MailQueryT.ofMessage (← readInput libs .post 0 .mailQueryT r)
  requireReady site
  match r.header (ascii "Shared-Secret") with
  | none => within (throw (.badData "No Header Shared Secret"))
  | some sharedSecret =>
    within (require (sharedSecret = site.sharedSecret) (.badData "Bad Shared Secret"))
    return .action (.pending { mailq with sharedSecret := sharedSecret })

/-! `BlobDataService`. -/

def getAccessKey (method : Method) (r : WebRequest) : Except Caught Handled := do
  let subtok := SubmitTokenT.ofMessage (← readInput libs method 1 .submitTokenT r)
  requireReady site
  if method = .post then
    requireValue "sid" subtok.sid
    requireValue "client_secret" subtok.clientSecret
  return .action (.getAccessKey { subtok := subtok })

def getBlobData (method : Method) (r : WebRequest) : Except Caught Handled := do
  let accessblob ← readInput libs method 1 .accessBlobT r
  requireReady site
  let bdata ← within (BlobDataService.getBlobDataAction st { accessblob := .ofMessage accessblob })
  within (require (bdata.accessblob.accessdenied = false) (.badData "Access Denied"))
  return .page (handleDataOut libs.json bdata.accessblob)

def setBlobData (r : WebRequest) : Except Caught Handled := do
  within (require (jsonRequest r = true) (.sydent "Only Json Allowed" mBadJson))
  requireReady site
  let accessblob ← within (handleDataIn libs.json r.content {})
  return .action (.setBlobData { accessblob := accessblob })

/-! `LookupService`. -/

/-- The key that answers are signed with. -/
def defaultKey : PubKeyT := { owner := st.hostname, algo := ascii "ed25519", identifier := ascii "0" }

def emptyObject : Bytes := ascii "\x7b\x7d"

def lookup (method : Method) (r : WebRequest) : Except Caught Handled := do
  let query ← readInput libs method 1 .lookupQueryT r
  requireReady site
  checkAccess site st site.lookupRequiresKey r (query.stringOf (ascii "accesskey"))
  let lact ← within (LookupService.lookupAction st { query := .ofMessage query })
  let (output, _) ← within (SignedJson.addSignMsg protoPool libs.json libs.sodium site.keys.keyring .lookupResultT
    lact.result.toMessage (defaultKey st) [] [])
  return .page (if method = .post ∧ output = [] then emptyObject else output)

/-- Convert proto to JSON for bulk lookup. -/
def bulkLookupJson (codec : JsonCodec D) (bulkres : BulkLookupResultT) : Bytes :=
  codec.write (.object [(ascii "threepids", .array (bulkres.threepids.map fun res =>
    .array [.string (cString res.medium), .string (cString res.address), .string (cString res.mxid)]))])

def bulkLookup (r : WebRequest) : Except Caught Handled := do
  let query ← readJsonOnly libs "Only Json Supported" .bulkLookupQueryT r
  requireReady site
  checkAccess site st site.lookupRequiresKey r (query.stringOf (ascii "accesskey"))
  let blact ← within (LookupService.bulkLookupAction st { query := .ofMessage query })
  let (output, _) ← within (SignedJson.addSign libs.json libs.sodium site.keys.keyring
    (bulkLookupJson libs.json blact.result) (defaultKey st) [])
  return .page (if output = [] then emptyObject else output)

/-! `PubKeyService`. -/

def getPubKey (r : WebRequest) : Except Caught Handled := do
  requireReady site
  let pubkey := PubKeyService.getPubKeyAction site.keys { algo := r.pathMatch 1, identifier := r.pathMatch 3 }
  return .page (pb2json protoPool libs.json .pubKeyT (pubkey.toMessage false))

/-- The key that a request asks about. -/
def askedKey (r : WebRequest) : Except Caught PubKeyT :=
  match (urldecode (r.pathMatch 1)).get? (ascii "public_key") with
  | some publicKey => .ok { publicKey := publicKey }
  | none => .error ⟨mUnknown, libs.atFailure⟩

def isValid (r : WebRequest) : Except Caught Handled := do
  let pubkey ← askedKey libs r
  requireReady site
  let valid := PubKeyService.getPubKeyValidAction site.keys pubkey
  return .page (pb2json protoPool libs.json .pubKeyT (pubkey.toMessage valid))

def ephemeralIsValid (r : WebRequest) : Except Caught Handled := do
  let pubkey ← askedKey libs r
  requireReady site
  let valid ← within (PubKeyService.getEphemeralValidAction st pubkey)
  return .page (pb2json protoPool libs.json .pubKeyT (pubkey.toMessage valid))

def sign (r : WebRequest) : Except Caught Handled := do
  let query ← readInput libs .post 0 .toSignQueryT r
  -- validations
  requireValue "mxid" (query.stringOf (ascii "mxid"))
  requireValue "token" (query.stringOf (ascii "token"))
  requireValue "private_key" (query.stringOf (ascii "private_key"))
  let sender := query.stringOf (ascii "sender")
  let pubkey : PubKeyT := {
    algo := r.pathMatch 1
    identifier := r.pathMatch 3
    privateKey := query.stringOf (ascii "private_key")
    noKeyring := true
    owner := if sender = [] then ascii "unknown" else sender }
  requireReady site
  let (output, _) ← within (SignedJson.addSignMsg protoPool libs.json libs.sodium site.keys.keyring .toSignQueryT
    query pubkey [] [])
  return .page output

end Endpoints

/-- The endpoints, with their methods where there are two. -/
inductive Endpoint where
  | requestToken (method : Method) | submitToken (method : Method)
  | getValidated3pid (method : Method) | bind (method : Method)
  | storeInvite | getMailsToSend
  | getAccessKey (method : Method) | getBlobData (method : Method) | setBlobData
  | lookup (method : Method) | bulkLookup
  | getPubKey | isValid | ephemeralIsValid | sign
deriving DecidableEq, Repr, Inhabited

def Endpoint.handle (r : WebRequest) : Endpoint → Except Caught Handled
  | .requestToken method => Endpoints.requestToken libs site method r
  | .submitToken method => Endpoints.submitToken libs site method r
  | .getValidated3pid method => Endpoints.getValidated3pid libs site method r
  | .bind method => Endpoints.bind libs site method r
  | .storeInvite => Endpoints.storeInvite libs site st r
  | .getMailsToSend => Endpoints.getMailsToSend libs site r
  | .getAccessKey method => Endpoints.getAccessKey libs site method r
  | .getBlobData method => Endpoints.getBlobData libs site st method r
  | .setBlobData => Endpoints.setBlobData libs site r
  | .lookup method => Endpoints.lookup libs site st method r
  | .bulkLookup => Endpoints.bulkLookup libs site st r
  | .getPubKey => Endpoints.getPubKey libs site r
  | .isValid => Endpoints.isValid libs site r
  | .ephemeralIsValid => Endpoints.ephemeralIsValid libs site st r
  | .sign => Endpoints.sign libs site r

/-- What the endpoint of an action makes of what comes back. -/
def aftermath : MasterRequest → Except Caught Bytes
  | .requestToken rtoka => .ok (pb2json protoPool libs.json .successSidT rtoka.ssid.toMessage)
  | .submitToken stoka => .ok (pb2json protoPool libs.json .queryErrorT stoka.result.toMessage)
  | .getValidated3pid gva => .ok (pb2json protoPool libs.json .validatedAtT gva.valresult.toMessage)
  | .bind3pid bpa => .ok bpa.output
  | .storeInvite inv => .ok (pb2json protoPool libs.json .inviteResultT inv.invres.toMessage)
  | .pending mailq => .ok (pb2json protoPool libs.json .mailQueryT { mailq with sharedSecret := [] }.toMessage)
  | .getAccessKey gva => .ok (pb2json protoPool libs.json .accessBlobT gva.accessblob.toMessage)
  | .setBlobData bdata =>
    if bdata.accessblob.accessdenied then within (throw (.badData "Access Denied"))
    else .ok (libs.json.write (.object [(ascii "success", .bool true)]))

/-- What is sent; the body stops at a NUL, but not its length. -/
structure Page where
  contentLength : ℕ
  body : Bytes
deriving DecidableEq, Repr, Inhabited

def httpOKAction (payload : Bytes) : Page := ⟨payload.length, cString payload⟩

/-- Generate a JSON for error message. -/
def err2json (codec : JsonCodec D) (errorcode error : Bytes) : Bytes :=
  codec.write (.object [(ascii "errorcode", .string errorcode), (ascii "error", .string error)])

/-- The page of an answer or an error. -/
def pageOf : Except Caught Bytes → Page
  | .ok output => httpOKAction output
  | .error e => httpOKAction (err2json libs.json ((sydentErrors.lookup e.ecode).getD []) e.text)

section SameData

variable {libs site st} {st' : SharedTable}

theorem offLog_ephemeralPublicKey : OffLogTable ephemeralPublicKeyTable :=
  TableName.kLogNode_notMem .ephemeralPublicKey

/-- What an endpoint does depends on the data that its node has, and on no other part of the node but its name, if
the node looks up in its data. -/
theorem handle_congr (same : SameData st.maindb st'.maindb) (named : st.hostname = st'.hostname)
    (uncached : st.lookupUsesLocal = false) (uncached' : st'.lookupUsesLocal = false) (endpoint : Endpoint)
    (r : WebRequest) : endpoint.handle libs site st r = endpoint.handle libs site st' r := by
  have reads : ReadsAlike st st' := same.readsAlike
  have access (requiresKey : Bool) (accesskey : Bytes) :
      checkAccess site st requiresKey r accesskey = checkAccess site st' requiresKey r accesskey := by
    rw [checkAccess, reads.verifyAccessKey, checkAccess]
  cases endpoint with
  | requestToken | submitToken | getValidated3pid | bind | getMailsToSend | getAccessKey | setBlobData | getPubKey |
    isValid | sign => rfl
  | storeInvite => simp only [Endpoint.handle, Endpoints.storeInvite, access]
  | getBlobData method => simp only [Endpoint.handle, Endpoints.getBlobData, reads.getBlobData]
  | lookup method =>
    have looksUp (lact : LookupDataT) : LookupService.lookupAction st lact = LookupService.lookupAction st' lact := by
      rw [LookupService.lookupAction, reads.lookup, LookupService.lookupAction, uncached, uncached']
      rfl
    simp only [Endpoint.handle, Endpoints.lookup, access, looksUp, Endpoints.defaultKey, named]
  | bulkLookup =>
    have looksUp (blact : BulkLookupDataT) :
        LookupService.bulkLookupAction st blact = LookupService.bulkLookupAction st' blact := by
      simp only [LookupService.bulkLookupAction, uncached, uncached', Bool.false_eq_true, if_false, reads.bulkLookup]
    simp only [Endpoint.handle, Endpoints.bulkLookup, access, looksUp, Endpoints.defaultKey, named]
  | ephemeralIsValid =>
    have valid (pubkey : PubKeyT) : PubKeyService.getEphemeralValidAction st pubkey =
        PubKeyService.getEphemeralValidAction st' pubkey := by
      simp only [PubKeyService.getEphemeralValidAction, same.getOne offLog_ephemeralPublicKey]
    simp only [Endpoint.handle, Endpoints.ephemeralIsValid, valid]

end SameData

end Identt.Query
