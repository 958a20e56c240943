import Identt.Lib.Reflection
import Identt.Proto.Store

/-! # The messages of the `.proto` files by reflection

Each message type with its fields in the order of their declaration. Two packages have an `ErrorT` and two a
`StateT`. All fields are optional or repeated, as in every `proto3` file, and none is a floating-point number.
-/

namespace Identt

/-- The message types of `Mail.proto`, `Query.proto`, `Store.proto` and `Hrpc.proto`. -/
inductive MessageType where
  | mpOneT | mpTwoT | mpThreeT | mpayloadT | mailQueryT
  | queryStateT | queryErrorT | requestTokenT | successSidT | submitTokenT | pubKeyT | lookupQueryT | lookupResultT
  | bulkLookupQueryT | bulkLookupResultT | mxidSignedT | inviteItemT | validatedAtT | validatedInviteT
  | inviteQueryT | pubKeyRetT | inviteResultT | toSignQueryT | requestTokenDataT | submitTokenDataT
  | getValidated3pidDataT | bind3pidDataT | lookupDataT | bulkLookupDataT | storeInviteDataT | accessBlobT
  | getAccessDataT | getBlobDataT | setBlobDataT
  | storeErrorT | nodeT | nodeListT | inviteTokenT | ephemeralPublicKeyT | peerT | peerPubKeyT | localAssocT
  | globalAssocT | validationSessionT | tokenAuthT | myCollectT | transItemT | transactionT | transListT
  | cryptoKeyT | parAvionT | mailSentT | accessKeyT | blobStoreT
  | remoteT | hrpcStateT
deriving DecidableEq, Repr, Inhabited

/-- The values of `ActTypeE`. -/
def actTypeEValues : List (Bytes × Int32) :=
  [(ascii "A_NOACTION", 0), (ascii "A_MAILSENT", 1), (ascii "A_AUTHTOKEN", 11), (ascii "A_USERINVITE", 12),
    (ascii "A_ROOMINVITE", 13), (ascii "A_ONBINDNOTIFY", 14)]

/-- The values of `KeyTypeE`. -/
def keyTypeEValues : List (Bytes × Int32) :=
  [(ascii "NOKEY", 0), (ascii "SYSKEY", 1), (ascii "KEYPAIRS", 2), (ascii "K_NONODE", 10),
    (ascii "K_INVITETOKEN", 11), (ascii "K_EPHEMERALPUBLICKEY", 12), (ascii "K_PEER", 13), (ascii "K_PEERPUBKEY", 14),
    (ascii "K_LOCALASSOC", 15), (ascii "K_GLOBALASSOC", 16), (ascii "K_VALIDATIONSESSION", 17),
    (ascii "K_TOKENAUTH", 18), (ascii "K_PARAVION", 19), (ascii "K_MAILSENT", 20), (ascii "K_ACCESSKEY", 21),
    (ascii "K_BLOBSTORE", 22), (ascii "K_LOGNODE", 23), (ascii "K_MAXNODE", 24), (ascii "I_NOINDEX", 50),
    (ascii "I_INVITETOKEN_MEDIUM_ADDRESS", 51), (ascii "I_INVITETOKEN_TOKEN", 52),
    (ascii "U_EPHEMERALPUBLICKEY_PUBLICKEY", 53), (ascii "U_PEER_NAME", 54), (ascii "U_PEERPUBKEY_PEERNAME_ALG", 55),
    (ascii "U_LOCALASSOC_MEDIUM_ADDRESS", 56), (ascii "I_GLOBALASSOC_MEDIUM_ADDRESS", 57),
    (ascii "U_GLOBALASSOC_ORIGINSERVER_ORIGINID", 59), (ascii "U_TOKENAUTH_VALIDATIONSESSION", 60),
    (ascii "U_VALIDATIONSESSION_MEDIUM_ADDRESS_CLIENTSECRET", 62), (ascii "U_ACCESSKEY_MEDIUM_ADDRESS", 63),
    (ascii "U_BLOBSTORE_KEYID_TAG", 64)]

namespace MessageType

def one (type : FieldType MessageType) (name : String) : FieldDescriptor MessageType := ⟨ascii name, type, false⟩

def many (type : FieldType MessageType) (name : String) : FieldDescriptor MessageType := ⟨ascii name, type, true⟩

def fields : MessageType → List (FieldDescriptor MessageType)
  | .mpOneT => [one .string "sid", one .string "country", one .string "token", one .string "phone_no_isd"]
  | .mpTwoT => [one .string "room_id", one .string "sender", one .string "token", one .string "ephemeral_private_key"]
  | .mpThreeT => [one .string "mxid", one .bytes "payload"]
  | .mpayloadT => [one .uint64 "id", one .string "medium", one .string "address", one (.enum actTypeEValues) "actkey",
      one .int32 "retry", one (.message .mpOneT) "mpone", one (.message .mpTwoT) "mptwo",
      one (.message .mpThreeT) "mpthree"]
  | .mailQueryT => [one .string "medium", one .uint64 "lastid", one .uint64 "limit", one .string "shared_secret",
      many (.message .mpayloadT) "payload"]
  | .queryStateT => [one .string "hostname", one .string "master", one .bool "is_master", one .bool "is_ready",
      one .uint64 "ts", one .bool "not_found"]
  | .queryErrorT => [one .string "errorcode", one .string "error", one .bool "success", one .int32 "ecode"]
  | .requestTokenT => [one .string "client_secret", one .int32 "send_attempt", one .string "email",
      one .string "country", one .string "phone_number", one .string "next_link"]
  | .successSidT => [one .bool "success", one .string "sid", one .string "msisdn", one .string "intl_fmt"]
  | .submitTokenT => [one .string "sid", one .string "client_secret", one .string "token", one .string "mxid"]
  | .pubKeyT => [one .string "algo", one .string "identifier", one .bool "valid", one .string "owner",
      one .string "public_key", one .string "private_key", one .bool "no_keyring"]
  | .lookupQueryT => [one .string "medium", one .string "address", one .string "accesskey"]
  | .lookupResultT => [one .string "medium", one .string "address", one .string "mxid", one .uint64 "ts",
      one .uint64 "not_before", one .uint64 "not_after"]
  | .bulkLookupQueryT => [many (.message .lookupQueryT) "threepids", one .string "accesskey"]
  | .bulkLookupResultT => [many (.message .lookupResultT) "threepids"]
  | .mxidSignedT => [one .string "mxid", one .string "token"]
  | .inviteItemT => [one .uint64 "id", one .string "medium", one .string "address", one .string "room_id",
      one .string "sender", one .string "token", one .uint64 "received_ts", one .uint64 "sent_ts", one .string "mxid"]
  | .validatedAtT => [one .string "medium", one .string "address", one .uint64 "validated_at"]
  | .validatedInviteT => [one .string "medium", one .string "address", one .uint64 "validated_at",
      many (.message .inviteItemT) "invites"]
  | .inviteQueryT => [one .string "medium", one .string "address", one .string "room_id", one .string "sender",
      one .string "accesskey"]
  | .pubKeyRetT => [one .string "key_validity_url", one .string "public_key"]
  | .inviteResultT => [one .string "token", one .string "public_key", many (.message .pubKeyRetT) "public_keys",
      one .string "display_name"]
  | .toSignQueryT => [one .string "private_key", one .string "mxid", one .string "token", one .string "sender"]
  | .requestTokenDataT => [one (.message .requestTokenT) "reqtok", one (.message .successSidT) "ssid",
      one .string "medium", one .string "token"]
  | .submitTokenDataT => [one (.message .submitTokenT) "subtok", one (.message .queryErrorT) "result",
      one .string "medium"]
  | .getValidated3pidDataT => [one (.message .submitTokenT) "subtok", one (.message .validatedAtT) "valresult"]
  | .bind3pidDataT => [one (.message .submitTokenT) "subtok", one .string "output"]
  | .lookupDataT => [one (.message .lookupQueryT) "query", one (.message .lookupResultT) "result"]
  | .bulkLookupDataT => [one (.message .bulkLookupQueryT) "query", one (.message .bulkLookupResultT) "result"]
  | .storeInviteDataT => [one (.message .inviteQueryT) "invqry", one (.message .inviteResultT) "invres"]
  | .accessBlobT => [one .string "accesskey", one .string "tag", one .bytes "jsondata", one .bytes "textdata",
      one .uint64 "ts", one .bool "accessdenied"]
  | .getAccessDataT => [one (.message .submitTokenT) "subtok", one (.message .accessBlobT) "accessblob"]
  | .getBlobDataT => [one (.message .accessBlobT) "accessblob"]
  | .setBlobDataT => [one (.message .accessBlobT) "accessblob"]
  | .storeErrorT => [one .string "status", one .string "msg"]
  | .nodeT => [one (.enum keyTypeEValues) "keytype", one .uint64 "id"]
  | .nodeListT => [many (.message .nodeT) "node"]
  | .inviteTokenT => [one .uint64 "id", one .string "medium", one .string "address", one .string "room_id",
      one .string "sender", one .string "token", one .uint64 "received_ts", one .uint64 "sent_ts",
      one .bool "notfound"]
  | .ephemeralPublicKeyT => [one .uint64 "id", one .string "public_key", one .uint64 "verify_count",
      one .uint64 "persistence_ts", one .bool "notfound"]
  | .peerT => [one .uint64 "id", one .string "name", one .uint32 "port", one .uint64 "last_seen_version",
      one .uint64 "last_poke_succeded_at", one .uint32 "active", one .bool "notfound"]
  | .peerPubKeyT => [one .uint64 "id", one .string "peername", one .string "alg", one .string "key",
      one .bool "notfound"]
  | .localAssocT => [one .uint64 "id", one .string "medium", one .string "address", one .string "mxid",
      one .uint64 "ts", one .uint64 "not_before", one .uint64 "not_after", one .bool "notfound"]
  | .globalAssocT => [one .uint64 "id", one .string "medium", one .string "address", one .string "mxid",
      one .uint64 "ts", one .uint64 "not_before", one .uint64 "not_after", one .string "origin_server",
      one .uint64 "origin_id", one .string "sg_assoc", one .bool "notfound"]
  | .validationSessionT => [one .uint64 "id", one .string "medium", one .string "address",
      one .string "client_secret", one .uint32 "validated", one .uint64 "mtime", one .bool "notfound"]
  | .tokenAuthT => [one .uint64 "id", one .uint64 "validation_session", one .string "token",
      one .int32 "send_attempt_number", one .bool "notfound"]
  | .myCollectT => [many (.message .inviteTokenT) "invitetoken",
      many (.message .ephemeralPublicKeyT) "ephemeralpublickey", many (.message .peerT) "peer",
      many (.message .peerPubKeyT) "peerpubkey", many (.message .localAssocT) "localassoc",
      many (.message .globalAssocT) "globalassoc", many (.message .validationSessionT) "validationsession",
      many (.message .tokenAuthT) "tokenauth", many (.message .accessKeyT) "accesskey",
      many (.message .blobStoreT) "blobstore"]
  | .transItemT => [one .string "key", one .bytes "value", one .bool "to_del"]
  | .transactionT => [one .uint64 "id", many (.message .transItemT) "item", one .uint64 "ts", one .bool "notfound"]
  | .transListT => [one .uint64 "lastid", one .uint64 "limit", many (.message .transactionT) "trans",
      one .uint64 "currid", one .uint64 "ts", one .string "endpoint"]
  | .cryptoKeyT => [one .string "pubkey", one .string "seckey", one .string "algo", one .string "identifier"]
  | .parAvionT => [one .uint64 "id", one .string "medium", one (.message .mpayloadT) "payload", one .bool "notfound"]
  | .mailSentT => [one .uint64 "id", one .string "medium", one .uint64 "sent_at", one .string "sent_by",
      one (.message .mpayloadT) "payload", one .bool "notfound"]
  | .accessKeyT => [one .uint64 "id", one .string "medium", one .string "address", one .string "accesskey",
      one .bool "notfound"]
  | .blobStoreT => [one .uint64 "id", one .uint64 "keyid", one .string "tag", one .bytes "jsondata",
      one .bytes "textdata", one .bool "notfound"]
  | .remoteT => [one .string "address", one .uint64 "logcounter", one .uint64 "updated_at"]
  | .hrpcStateT => [one .string "hostname", one .string "master", one .uint64 "logcounter", one .bool "is_master",
      one .uint64 "ts", one .string "thisurl", many (.message .remoteT) "remotes", one .bool "not_found"]

theorem fields_nodup (m : MessageType) : ((fields m).map FieldDescriptor.name).Nodup := by
  cases m <;> decide +kernel

theorem fields_plain (m : MessageType) : ∀ field ∈ fields m, 0 ∉ field.name := by
  have all : ∀ name ∈ (fields m).map FieldDescriptor.name, 0 ∉ name := by
    cases m <;> decide +kernel
  exact fun field isField => all field.name (List.mem_map_of_mem isField)

end MessageType

/-- The generated pool of descriptors. -/
def protoPool : DescriptorPool MessageType where
  fields := MessageType.fields
  nodup := MessageType.fields_nodup
  plain := MessageType.fields_plain

end Identt
