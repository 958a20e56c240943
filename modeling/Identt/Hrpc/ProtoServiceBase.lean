import Identt.Proto.Hrpc
import Identt.Query.Bin2Ascii
import Identt.Store.StoreBase

/-! # The headers of a call (`ProtoServiceBase`)

A call between nodes is an HTTP post of a message in base64, with the command and the secret in headers. The
endpoints ask for the format first, and take a header for granted that a post need not have.
-/

namespace Identt.Hrpc

open Store Query

/-- A post, with the first header of each name that an endpoint looks for. -/
structure HttpRequest where
  contentType : Option Bytes := none
  accept : Option Bytes := none
  protoTransferEncoding : Option Bytes := none
  sharedSecret : Option Bytes := none
  serviceName : Option Bytes := none
  content : Bytes
deriving DecidableEq, Repr, Inhabited

structure HttpResponse where
  statusCode : ℕ := 200
  /-- The code in `Service-Error`, if the header is there. -/
  serviceError : Option ℕ := none
  /-- Whether `Proto-Transfer-Encoding` is base64. -/
  base64 : Bool := false
  text : Bytes := []
deriving DecidableEq, Repr, Inhabited

/-- `ProtoRequest`; nothing if it dereferences `header.end()`, and then C++ leaves open what the process does. -/
def protoRequest (r : HttpRequest) : Option Bool :=
  match r.contentType.or r.accept with
  | none => some false
  | some type =>
    if type.take 17 ≠ ascii "application/proto" then some false
    else r.protoTransferEncoding.map fun encoding => encoding.take 6 = ascii "base64"

/-- The post is not labelled as a message of protobuf, or its encoding is given. -/
def HttpRequest.Readable (r : HttpRequest) : Prop := (protoRequest r).isSome

instance (r : HttpRequest) : Decidable r.Readable := inferInstanceAs (Decidable (_ = true))

def sharedSecretOK (r : HttpRequest) (sharedkey : Bytes) : Bool := r.sharedSecret = some sharedkey

/-- `ServiceName`. -/
def serviceName (r : HttpRequest) : Except Exn ℤ :=
  match r.serviceName with
  | none => .ok 0
  | some text => stoi text

/-- An answer names the service of its request; its head breaks off where the name is no number. -/
def answered (r : HttpRequest) (response : HttpResponse) : HttpResponse :=
  match serviceName r with
  | .ok _ => response
  | .error _ => { statusCode := 0 }

def serviceOKAction (r : HttpRequest) (payload : Bytes) : HttpResponse :=
  answered r { base64 := true, text := cString payload }

def serviceErrAction (r : HttpRequest) (ecode : ℕ) (emsg : Bytes) : HttpResponse :=
  answered r { serviceError := some ecode, text := cString emsg }

/-- What `SendToMaster` and `SendToRemote` post. -/
def protoPost (serviceId : ℕ) (sharedSecret content : Bytes) : HttpRequest where
  contentType := some (ascii "application/proto")
  protoTransferEncoding := some (ascii "base64")
  sharedSecret := some sharedSecret
  serviceName := some (toString serviceId)
  content := content

section ProtoPost

variable (serviceId : ℕ) (sharedSecret content : Bytes)

@[simp] theorem protoRequest_protoPost : protoRequest (protoPost serviceId sharedSecret content) = some true := by
  simp only [protoRequest, protoPost, Option.or_none]
  decide

@[simp] theorem readable_protoPost : (protoPost serviceId sharedSecret content).Readable := by
  rw [HttpRequest.Readable, protoRequest_protoPost]
  rfl

@[simp] theorem sharedSecretOK_protoPost (sharedkey : Bytes) :
    sharedSecretOK (protoPost serviceId sharedSecret content) sharedkey = decide (sharedSecret = sharedkey) := by
  simp [sharedSecretOK, protoPost]

theorem serviceName_protoPost :
    serviceName (protoPost serviceId sharedSecret content) = stoi (toString serviceId) := rfl

end ProtoPost

@[simp] theorem serviceName_masterCmd (cmd : MasterCmdTypeE) (sharedSecret content : Bytes) :
    serviceName (protoPost cmd.number sharedSecret content) = .ok cmd.number := by
  rw [serviceName_protoPost]
  cases cmd <;> decide +kernel

@[simp] theorem serviceName_remoteCmd (cmd : RemoteCmdTypeE) (sharedSecret content : Bytes) :
    serviceName (protoPost cmd.number sharedSecret content) = .ok cmd.number := by
  rw [serviceName_protoPost]
  cases cmd <;> decide +kernel

@[simp] theorem answered_masterCmd (cmd : MasterCmdTypeE) (sharedSecret content : Bytes) (response : HttpResponse) :
    answered (protoPost cmd.number sharedSecret content) response = response := by
  rw [answered, serviceName_masterCmd]

@[simp] theorem answered_remoteCmd (cmd : RemoteCmdTypeE) (sharedSecret content : Bytes) (response : HttpResponse) :
    answered (protoPost cmd.number sharedSecret content) response = response := by
  rw [answered, serviceName_remoteCmd]

end Identt.Hrpc
