import Identt.Proto.Query
import Identt.Proto.Schema

/-! # The messages that clients send and get

The services work with the messages of `Query.proto` and `Mail.proto` as records. Requests are read into them from
what reflection gives for the fields, and answers are set field by field.
-/

namespace Identt

open MessageType

namespace Mail

/-- The enumerator's number. -/
def ActTypeE.number : ActTypeE → Int32
  | .aNoAction => 0
  | .aMailSent => 1
  | .aAuthToken => 11
  | .aUserInvite => 12
  | .aRoomInvite => 13
  | .aOnBindNotify => 14

/-- The enumerator with a number. -/
def ActTypeE.ofNumber (number : Int32) : ActTypeE :=
  ([.aMailSent, .aAuthToken, .aUserInvite, .aRoomInvite, .aOnBindNotify].find? fun act =>
    ActTypeE.number act = number).getD .aNoAction

def MPOneT.toMessage (m : MPOneT) : Message :=
  .ofFields [(one .string "sid", .string m.sid), (one .string "country", .string m.country),
    (one .string "token", .string m.token), (one .string "phone_no_isd", .string m.phoneNoIsd)]

def MPOneT.ofMessage (msg : Message) : MPOneT where
  sid := msg.stringOf (ascii "sid")
  country := msg.stringOf (ascii "country")
  token := msg.stringOf (ascii "token")
  phoneNoIsd := msg.stringOf (ascii "phone_no_isd")

def MPTwoT.toMessage (m : MPTwoT) : Message :=
  .ofFields [(one .string "room_id", .string m.roomId), (one .string "sender", .string m.sender),
    (one .string "token", .string m.token), (one .string "ephemeral_private_key", .string m.ephemeralPrivateKey)]

def MPTwoT.ofMessage (msg : Message) : MPTwoT where
  roomId := msg.stringOf (ascii "room_id")
  sender := msg.stringOf (ascii "sender")
  token := msg.stringOf (ascii "token")
  ephemeralPrivateKey := msg.stringOf (ascii "ephemeral_private_key")

def MPThreeT.toMessage (m : MPThreeT) : Message :=
  .ofFields [(one .string "mxid", .string m.mxid), (one .bytes "payload", .string m.payload)]

def MPThreeT.ofMessage (msg : Message) : MPThreeT where
  mxid := msg.stringOf (ascii "mxid")
  payload := msg.stringOf (ascii "payload")

def MPayloadT.toMessage (m : MPayloadT) : Message :=
  .ofFields ([(one .uint64 "id", .uint64 (.ofNat m.id)), (one .string "medium", .string m.medium),
      (one .string "address", .string m.address), (one (.enum actTypeEValues) "actkey", .enum m.actkey.number),
      (one .int32 "retry", .int32 (.ofInt m.retry))] ++
    (m.mpone.map fun part => (one (.message .mpOneT) "mpone", FieldValue.message part.toMessage)).toList ++
    (m.mptwo.map fun part => (one (.message .mpTwoT) "mptwo", FieldValue.message part.toMessage)).toList ++
    (m.mpthree.map fun part => (one (.message .mpThreeT) "mpthree", FieldValue.message part.toMessage)).toList)

def MPayloadT.ofMessage (msg : Message) : MPayloadT where
  id := (msg.uint64Of (ascii "id")).toNat
  medium := msg.stringOf (ascii "medium")
  address := msg.stringOf (ascii "address")
  actkey := .ofNumber (msg.enumOf (ascii "actkey"))
  retry := (msg.int32Of (ascii "retry")).toInt
  mpone := (msg.messagesOf (ascii "mpone")).head?.map .ofMessage
  mptwo := (msg.messagesOf (ascii "mptwo")).head?.map .ofMessage
  mpthree := (msg.messagesOf (ascii "mpthree")).head?.map .ofMessage

def MailQueryT.toMessage (mailq : MailQueryT) : Message :=
  .ofFields ([(one .string "medium", .string mailq.medium), (one .uint64 "lastid", .uint64 (.ofNat mailq.lastid)),
      (one .uint64 "limit", .uint64 (.ofNat mailq.limit)), (one .string "shared_secret", .string mailq.sharedSecret)] ++
    mailq.payload.map fun m => (many (.message .mpayloadT) "payload", .message m.toMessage))

def MailQueryT.ofMessage (msg : Message) : MailQueryT where
  medium := msg.stringOf (ascii "medium")
  lastid := (msg.uint64Of (ascii "lastid")).toNat
  limit := (msg.uint64Of (ascii "limit")).toNat
  sharedSecret := msg.stringOf (ascii "shared_secret")
  payload := (msg.messagesOf (ascii "payload")).map .ofMessage

end Mail

namespace Query

/-! Requests; `next_link`, `accesskey` and `ts` are no part of what an action reads. -/

def RequestTokenT.ofMessage (msg : Message) : RequestTokenT where
  clientSecret := msg.stringOf (ascii "client_secret")
  sendAttempt := (msg.int32Of (ascii "send_attempt")).toInt
  email := msg.stringOf (ascii "email")
  country := msg.stringOf (ascii "country")
  phoneNumber := msg.stringOf (ascii "phone_number")

def SubmitTokenT.ofMessage (msg : Message) : SubmitTokenT where
  sid := msg.stringOf (ascii "sid")
  clientSecret := msg.stringOf (ascii "client_secret")
  token := msg.stringOf (ascii "token")
  mxid := msg.stringOf (ascii "mxid")

def InviteQueryT.ofMessage (msg : Message) : InviteQueryT where
  medium := msg.stringOf (ascii "medium")
  address := msg.stringOf (ascii "address")
  roomId := msg.stringOf (ascii "room_id")
  sender := msg.stringOf (ascii "sender")

def LookupQueryT.ofMessage (msg : Message) : LookupQueryT where
  medium := msg.stringOf (ascii "medium")
  address := msg.stringOf (ascii "address")

def BulkLookupQueryT.ofMessage (msg : Message) : BulkLookupQueryT where
  threepids := (msg.messagesOf (ascii "threepids")).map .ofMessage

def AccessBlobT.ofMessage (msg : Message) : AccessBlobT where
  accesskey := msg.stringOf (ascii "accesskey")
  tag := msg.stringOf (ascii "tag")
  jsondata := msg.stringOf (ascii "jsondata")
  textdata := msg.stringOf (ascii "textdata")
  accessdenied := msg.boolOf (ascii "accessdenied")

/-! Answers. -/

def SuccessSidT.toMessage (ssid : SuccessSidT) : Message :=
  .ofFields [(one .bool "success", .bool ssid.success), (one .string "sid", .string ssid.sid),
    (one .string "msisdn", .string ssid.msisdn), (one .string "intl_fmt", .string ssid.intlFmt)]

def ErrorT.toMessage (result : ErrorT) : Message :=
  .ofFields [(one .string "error", .string result.error), (one .bool "success", .bool result.success)]

def ValidatedAtT.toMessage (valresult : ValidatedAtT) : Message :=
  .ofFields [(one .string "medium", .string valresult.medium), (one .string "address", .string valresult.address),
    (one .uint64 "validated_at", .uint64 valresult.validatedAt)]

def PubKeyRetT.toMessage (pubkeyret : PubKeyRetT) : Message :=
  .ofFields [(one .string "key_validity_url", .string pubkeyret.keyValidityUrl),
    (one .string "public_key", .string pubkeyret.publicKey)]

def InviteResultT.toMessage (invres : InviteResultT) : Message :=
  .ofFields ([(one .string "token", .string invres.token), (one .string "public_key", .string invres.publicKey)] ++
    invres.publicKeys.map fun key => (many (.message .pubKeyRetT) "public_keys", .message key.toMessage))

def AccessBlobT.toMessage (accessblob : AccessBlobT) : Message :=
  .ofFields [(one .string "accesskey", .string accessblob.accesskey), (one .string "tag", .string accessblob.tag),
    (one .bytes "jsondata", .string accessblob.jsondata), (one .bytes "textdata", .string accessblob.textdata),
    (one .bool "accessdenied", .bool accessblob.accessdenied)]

def LookupResultT.toMessage (result : LookupResultT) : Message :=
  .ofFields [(one .string "medium", .string result.medium), (one .string "address", .string result.address),
    (one .string "mxid", .string result.mxid), (one .uint64 "ts", .uint64 result.ts),
    (one .uint64 "not_before", .uint64 result.notBefore), (one .uint64 "not_after", .uint64 result.notAfter)]

/-- A key, and what `valid` is set to. -/
def PubKeyT.toMessage (pubkey : PubKeyT) (valid : Bool) : Message :=
  .ofFields [(one .string "algo", .string pubkey.algo), (one .string "identifier", .string pubkey.identifier),
    (one .bool "valid", .bool valid), (one .string "owner", .string pubkey.owner),
    (one .string "public_key", .string pubkey.publicKey), (one .string "private_key", .string pubkey.privateKey),
    (one .bool "no_keyring", .bool pubkey.noKeyring)]

end Query

end Identt
