import Identt.Hrpc.ProtoServiceBase

/-! # Calls between nodes (`HrpcClient`)

A call is an HTTP post of a message in base64, with the command in a header. The answer is the message
that goes back into the caller's one, or the text of an error with its code in a header.
-/

namespace Identt.Hrpc

open Store Query

/-- `what()`. -/
def what : Exn → Bytes
  | .badData msg | .badCode msg | .initial msg | .sydent msg _ => cString (ascii msg)
  | .badJson => []
  | .runtimeError text => cString text
  | .invalidArgument function | .outOfRange function => cString (ascii function)

/-- How messages of a type are serialised and parsed; `parse` gives the success of `ParseFromString` and
what it leaves in the message. -/
structure Codec (M : Type) where
  serialize : M → Bytes
  parse : Bytes → Bool × M

/-- What a client throws. -/
inductive ClientExn where
  | sydent (text : Bytes) (ecode : ℕ)
  | badData (text : Bytes)
  /-- From the base64 decoder. -/
  | runtimeError
deriving DecidableEq, Repr, Inhabited

def sydentErrorMin : ℕ := 101

def sydentErrorMax : ℕ := 116

def mUnknown : ℕ := 113

section Client

variable {M : Type}

/-- What comes out of the text of an answer: nothing if it is no base64, else the success of the parser and
what it leaves in the message. -/
def received? (codec : Codec M) (r : HttpResponse) : Option (Bool × M) :=
  (if r.base64 then b64Decode r.text else some r.text).map codec.parse

/-- `SendToMaster`; the post is what the network and the master make of a request. -/
def sendToMaster (codec : Codec M) (sharedSecret : Bytes) (serviceId : MasterCmdTypeE) (msg : M)
    (post : HttpRequest → HttpResponse) : Except ClientExn M := do
  if serviceId = .mNoAction then throw (.badData (ascii "Bad Service Id"))
  let r := post (protoPost serviceId.number sharedSecret (b64Encode (codec.serialize msg)))
  if r.statusCode ≠ 200 then throw (.badData (ascii "Cannot connect to master, bad HTTP Status"))
  match r.serviceError with
  | some ecode =>
    -- rethrow the error from other side
    if sydentErrorMin ≤ ecode ∧ ecode ≤ sydentErrorMax then throw (.sydent (cString r.text) ecode)
    else throw (.badData (cString r.text))
  | none =>
    match received? codec r with
    | none => throw .runtimeError
    | some (true, msg) => return msg
    | some (false, _) => throw (.badData (ascii "Bad Received Protobuf Data Format from master endpoint"))

/-- `SendToRemote` with `nothrow`: its status, and the message afterwards, which it also overwrites when the
parser fails. -/
def sendToRemote (codec : Codec M) (sharedSecret : Bytes) (serviceId : RemoteCmdTypeE) (msg : M)
    (post : HttpRequest → HttpResponse) : Bool × M :=
  let r := post (protoPost serviceId.number sharedSecret (b64Encode (codec.serialize msg)))
  if serviceId = .rNoAction then (false, msg)
  else if r.statusCode ≠ 200 then (false, msg)
  else if r.serviceError.isSome then (false, msg)
  else (received? codec r).getD (false, msg)

end Client

end Identt.Hrpc
