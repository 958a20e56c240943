import Identt.Query.SignedJson
import Identt.Store.ThreePidService
import Identt.Store.ValidateService

/-! # The signatures of a binding (`Bind3pidAction`)

A binding signs the association that it publishes, the pair of user and token of each invite, and the notification
with all of them. All use one list of signatures, which is not cleared in between, so every object but the first
lists signatures that were made over others.
-/

namespace Identt.Store.ThreePidService

open Query Crypto SignedJson ReadM

open MessageType (one many)

/-! The messages that are signed. -/

def globalAssocMsg (g : GlobalAssocT) : Message :=
  .ofFields [(one .uint64 "id", .uint64 (.ofNat g.id)), (one .string "medium", .string g.medium),
    (one .string "address", .string g.address), (one .string "mxid", .string g.mxid), (one .uint64 "ts", .uint64 g.ts),
    (one .uint64 "not_before", .uint64 g.notBefore), (one .uint64 "not_after", .uint64 g.notAfter),
    (one .string "origin_server", .string g.originServer), (one .uint64 "origin_id", .uint64 (.ofNat g.originId)),
    (one .string "sg_assoc", .string g.sgAssoc), (one .bool "notfound", .bool g.notfound)]

def inviteItemMsg (invite : InviteItemT) : Message :=
  .ofFields [(one .uint64 "id", .uint64 (.ofNat invite.id)), (one .string "medium", .string invite.medium),
    (one .string "address", .string invite.address), (one .string "room_id", .string invite.roomId),
    (one .string "sender", .string invite.sender), (one .string "token", .string invite.token),
    (one .uint64 "received_ts", .uint64 invite.receivedTs), (one .uint64 "sent_ts", .uint64 invite.sentTs),
    (one .string "mxid", .string invite.mxid)]

def validatedInviteMsg (result : ValidatedInviteT) : Message :=
  .ofFields ([(one .string "medium", .string result.medium), (one .string "address", .string result.address),
    (one .uint64 "validated_at", .uint64 result.validatedAt)] ++
    result.invites.map fun invite => (many (.message .inviteItemT) "invites", .message (inviteItemMsg invite)))

def mxidSignedMsg (mxid token : Bytes) : Message :=
  .ofFields [(one .string "mxid", .string mxid), (one .string "token", .string token)]

/-- The key of this server; `THREEPID_DEFAULT_ALGO` and `THREEPID_DEFAULT_ALGO_ID`. -/
def serverKey (owner : Bytes) : PubKeyT where
  algo := ascii "ed25519"
  identifier := ascii "0"
  owner := owner

variable {D : Type} (codec : JsonCodec D) (sodium : Sodium) (keyring : KeyRing)

def signAssoc (owner : Bytes) (globalassoc : GlobalAssocT) : Except Exn (Bytes × SignatureListT) :=
  addSignMsg protoPool codec sodium keyring .globalAssocT (globalAssocMsg globalassoc) (serverKey owner) [] []

/-- `v[name].GetString()`, if there is such a member. -/
def textMember (name : Bytes) (v : Json D) : Except Exn Bytes :=
  match v with
  | .object _ =>
    match v.get? name with
    | none => .ok []
    | some (.string text) => .ok (cString text)
    | some _ => .error .badJson
  | _ => .error .badJson

/-- Add the member `signed` to an invite, and move the members of the parsed text into it. -/
def attachSigned (tmpstr : Bytes) (v : Json D) : Except Exn (Json D) :=
  match codec.parse (cString tmpstr) with
  | .ok (.object members) =>
    let v : Json D := .object (v.members ++ [(ascii "signed", .object [])])
    match appendMembers members ((v.get? (ascii "signed")).getD .null) with
    | .ok signed => .ok (v.setMember (ascii "signed") signed)
    | .error failure => .error (failure.exn id)
  | _ => .ok v

/-- The loop over the invites. The signatures go on from those that were made before. -/
def signEach (owner : Bytes) : List (Json D) → SignatureListT → Except Exn (List (Json D) × SignatureListT)
  | [], signatures => .ok ([], signatures)
  | v :: rest, signatures => do
    let mxid ← textMember (ascii "mxid") v
    let token ← textMember (ascii "token") v
    let (tmpstr, signatures) ← addSignMsg protoPool codec sodium keyring .mxidSignedT (mxidSignedMsg mxid token)
      (serverKey owner) [] signatures
    let v ← attachSigned codec tmpstr v
    let (rest, signatures) ← signEach owner rest signatures
    return (v :: rest, signatures)

/-- The notification with each invite signed. -/
def signPieces (owner : Bytes) (signatures : SignatureListT) (result : ValidatedInviteT) :
    Except Exn (Json D × SignatureListT) :=
  match codec.parse (cString (pb2json protoPool codec .validatedInviteT (validatedInviteMsg result))) with
  | .error _ => .error (.badData "Json failed")
  | .ok d =>
    match d.get? (ascii "invites") with
    | some (.array elems) => do
      let (elems, signatures) ← signEach codec sodium keyring owner elems signatures
      return (d.setMember (ascii "invites") (.array elems), signatures)
    | some _ => .ok (d, signatures)
    | none => .error .badJson

def signInvites (owner : Bytes) (signatures : SignatureListT) (result : ValidatedInviteT) : Except Exn Bytes := do
  let (d, signatures) ← signPieces codec sodium keyring owner signatures result
  let (output, _) ← addSign codec sodium keyring (codec.write d) (serverKey owner) signatures
  return output

/-- How a binding signs with the keys of the server. -/
def serverSigning : BindSigning where
  assoc := signAssoc codec sodium keyring
  invites := signInvites codec sodium keyring

/-- The environment of a server that signs with its own keys. -/
def serverEnv (env : ActionEnv) : ActionEnv :=
  { env with
    signAssoc := signAssoc codec sodium keyring
    signInvites := signInvites codec sodium keyring }

/-- The elements of the member `invites` in a text. -/
def invitesOf (text : Bytes) : List (Json D) :=
  match codec.parse (cString text) with
  | .ok d =>
    match d.get? (ascii "invites") with
    | some (.array elems) => elems
    | _ => []
  | .error _ => []

/-- The texts that an invite is listed with, under the names of their members. -/
def listedTexts (medium address roomId sender token : Bytes) : List (Bytes × Bytes) :=
  [(ascii "medium", medium), (ascii "address", address), (ascii "room_id", roomId), (ascii "sender", sender),
    (ascii "token", token)]

/-- An object has these texts as members. -/
def HasTexts (texts : List (Bytes × Bytes)) (v : Json D) : Prop := ∀ entry ∈ texts, v.textOf entry.1 = entry.2

/-- The invite is listed as this object. -/
def ListedAs (invite : InviteItemT) (v : Json D) : Prop :=
  HasTexts (listedTexts invite.medium invite.address invite.roomId invite.sender invite.token) v

/-- All signatures that an object lists are over its own content. -/
def ListsOwn (key : Ed25519) (text : Bytes) : Prop :=
  ∀ content unsign signatures, signedjson2unsigned codec text [] [] = .ok (content, unsign, signatures) →
    ∀ s ∈ signatures, key.verifySignature sodium s.value content = .ok true

instance (key : Ed25519) (text : Bytes) : Decidable (ListsOwn codec sodium key text) :=
  match parsed : signedjson2unsigned codec text [] [] with
  | .ok (content, unsign, signatures) =>
    decidable_of_iff (∀ s ∈ signatures, key.verifySignature sodium s.value content = .ok true) (by
      constructor
      · intro verified content' unsign' signatures' parsed'
        cases parsed.symm.trans parsed'
        exact verified
      · exact fun owns => owns _ _ _ parsed)
  | .error _ => .isTrue fun _ _ _ parsed' => by cases parsed.symm.trans parsed'

variable {codec sodium keyring}

/-- Signing the invites takes no signature away. -/
theorem signEach_prefix {owner : Bytes} {elems signed : List (Json D)} {before after : SignatureListT}
    (signs : signEach codec sodium keyring owner elems before = .ok (signed, after)) : before <+: after := by
  induction elems generalizing before signed with
  | nil =>
    cases signs
    exact List.prefix_rfl
  | cons v rest ih =>
    obtain ⟨mxid, -, signs⟩ := bind_eq_ok.mp signs
    obtain ⟨token, -, signs⟩ := bind_eq_ok.mp signs
    obtain ⟨⟨tmpstr, signatures⟩, added, signs⟩ := bind_eq_ok.mp signs
    obtain ⟨v, -, signs⟩ := bind_eq_ok.mp signs
    obtain ⟨⟨others, last⟩, signsRest, signs⟩ := bind_eq_ok.mp signs
    cases signs
    obtain ⟨signature, -, added⟩ := bind_eq_ok.mp added
    cases added
    exact (List.prefix_append before [signature]).trans (ih signsRest)

/-- A binding in this environment is one with the keys of the server. -/
theorem bind3pidAction_serverEnv (st : SharedTable) (env : ActionEnv) (bpa : Bind3pidDataT) :
    bind3pidAction st (serverEnv codec sodium keyring env) bpa =
      bind3pidWith (serverSigning codec sodium keyring) st (serverEnv codec sodium keyring env) bpa := rfl

section Invites

/-- The object of an invite has its texts. -/
theorem listedAs_inviteItem (invite : InviteItemT) :
    ListedAs invite (parseMsg (D := D) protoPool .inviteItemT (inviteItemMsg invite)) := by
  have reads (name : String) (isField : (one .string name : FieldDescriptor MessageType) ∈ protoPool.fields .inviteItemT) :
      (parseMsg (D := D) protoPool .inviteItemT (inviteItemMsg invite)).textOf (ascii name) =
        (inviteItemMsg invite).stringOf (ascii name) := textOf_parseMsg isField rfl rfl _
  intro entry member
  simp only [listedTexts, List.mem_cons, List.not_mem_nil, or_false] at member
  rcases member with rfl | rfl | rfl | rfl | rfl
  all_goals
    refine (reads _ (by simp [protoPool, MessageType.fields])).trans ?_
    simp (disch := decide) only [inviteItemMsg, Message.ofFields, List.foldl_cons, List.foldl_nil,
      Message.stringOf_setField_of_ne]
    exact Message.stringOf_setField rfl ..

/-- The object of a notification lists the objects of its invites. -/
theorem get?_validatedInvite (result : ValidatedInviteT) :
    (parseMsg (D := D) protoPool .validatedInviteT (validatedInviteMsg result)).get? (ascii "invites") =
      some (.array (result.invites.map fun invite => parseMsg protoPool .inviteItemT (inviteItemMsg invite))) := by
  have isField : many (.message .inviteItemT) "invites" ∈ protoPool.fields .validatedInviteT := by
    simp [protoPool, MessageType.fields]
  have listed : validatedInviteMsg result (ascii "invites") =
      result.invites.map fun invite => .message (inviteItemMsg invite) := by
    have before : (Message.ofFields ([(one .string "medium", .string result.medium),
        (one .string "address", .string result.address),
        (one .uint64 "validated_at", .uint64 result.validatedAt)] :
          List (FieldDescriptor MessageType × FieldValue))) (ascii "invites") = [] := by
      simp (disch := decide) only [Message.ofFields, List.foldl_cons, List.foldl_nil, Message.setField]
      rfl
    have added (front : Message) := Message.foldl_setField_repeated
      (rfl : (many (.message .inviteItemT) "invites" : FieldDescriptor MessageType).repeated = true)
      (result.invites.map fun invite => .message (inviteItemMsg invite)) front
    simp only [List.map_map] at added
    rw [validatedInviteMsg, Message.ofFields, List.foldl_append]
    exact (added _).trans (congrArg (· ++ _) before)
  rw [show ascii "invites" = (many (.message .inviteItemT) "invites" : FieldDescriptor MessageType).name from rfl,
    get?_parseMsg_repeated isField rfl]
  change some (Json.array ((validatedInviteMsg result (ascii "invites")).map _)) = _
  rw [listed, List.map_map]
  rfl

/-- What is attached to an invite changes none of its other members. -/
theorem get?_attachSigned {tmpstr : Bytes} {v v' : Json D} (attaches : attachSigned codec tmpstr v = .ok v')
    {name : Bytes} (other : name ≠ ascii "signed") : v'.get? name = v.get? name := by
  rw [attachSigned] at attaches
  split at attaches
  · next members _ =>
    simp only at attaches
    split at attaches
    · next signed _ =>
      cases attaches
      rw [Json.get?_setMember_of_ne other, Json.get?_append, Json.get?_object_cons, if_neg other.symm]
      cases v <;> simp [Json.get?, Json.members]
    · cases attaches
  · cases attaches
    rfl

theorem ListedAs.attachSigned {invite : InviteItemT} {v v' : Json D} (listed : ListedAs invite v) {tmpstr : Bytes}
    (attaches : ThreePidService.attachSigned codec tmpstr v = .ok v') : ListedAs invite v' := by
  intro entry member
  have other : entry.1 ≠ ascii "signed" := by
    simp only [listedTexts, List.mem_cons, List.not_mem_nil, or_false] at member
    rcases member with rfl | rfl | rfl | rfl | rfl
    all_goals
      dsimp only
      decide
  rw [Json.textOf, get?_attachSigned attaches other]
  exact listed entry member

/-- Each invite is signed in its place. -/
theorem signEach_forall {owner : Bytes} {elems signed : List (Json D)} {before after : SignatureListT}
    (signs : signEach codec sodium keyring owner elems before = .ok (signed, after)) {invites : List InviteItemT}
    (listed : List.Forall₂ ListedAs invites elems) : List.Forall₂ ListedAs invites signed := by
  induction listed generalizing before signed with
  | nil =>
    cases signs
    exact .nil
  | cons head rest ih =>
    obtain ⟨mxid, -, signs⟩ := bind_eq_ok.mp signs
    obtain ⟨token, -, signs⟩ := bind_eq_ok.mp signs
    obtain ⟨⟨tmpstr, signatures⟩, -, signs⟩ := bind_eq_ok.mp signs
    obtain ⟨v, attaches, signs⟩ := bind_eq_ok.mp signs
    obtain ⟨⟨others, last⟩, signsRest, signs⟩ := bind_eq_ok.mp signs
    cases signs
    exact .cons (head.attachSigned attaches) (ih signsRest)

/-- The notification that is signed at the end: an object with neither signatures nor an unsigned part, which lists
the invites one by one; and the signatures from before. -/
theorem signPieces_spec (roundTrips : codec.RoundTrips) {owner : Bytes} {result : ValidatedInviteT} {d : Json D}
    {before after : SignatureListT} (signs : signPieces codec sodium keyring owner before result = .ok (d, after)) :
    (∃ members, d = .object members) ∧ d.get? signaturesName = none ∧ d.get? unsignedName = none ∧
      (∃ signed, d.get? (ascii "invites") = some (.array signed) ∧ List.Forall₂ ListedAs result.invites signed) ∧
      before <+: after := by
  have parsed : codec.parse (cString (pb2json protoPool codec .validatedInviteT (validatedInviteMsg result))) =
      .ok (parseMsg protoPool .validatedInviteT (validatedInviteMsg result)) := roundTrips _
  have noSignatures := get?_parseMsg (D := D) (field_ne_signatures .validatedInviteT) (validatedInviteMsg result)
  have noUnsigned := get?_parseMsg (D := D) (field_ne_unsigned .validatedInviteT)
    (validatedInviteMsg result)
  have lists := get?_validatedInvite (D := D) result
  obtain ⟨members, isObject⟩ : ∃ members, parseMsg (D := D) protoPool .validatedInviteT (validatedInviteMsg result) =
    .object members := ⟨_, parseMsg_eq ..⟩
  rw [isObject] at parsed noSignatures noUnsigned lists
  rw [signPieces, parsed] at signs
  simp only [lists] at signs
  obtain ⟨⟨signed, last⟩, signsEach, signs⟩ := bind_eq_ok.mp signs
  cases signs
  refine ⟨⟨_, rfl⟩, ?_, ?_, ⟨signed, ?_, signEach_forall signsEach ?_⟩, signEach_prefix signsEach⟩
  · rw [Json.get?_setMember_of_ne (by decide), noSignatures]
  · rw [Json.get?_setMember_of_ne (by decide), noUnsigned]
  · rw [Json.get?_setMember _ _ (by rw [lists]; rfl)]
  · rw [List.forall₂_map_right_iff, List.forall₂_same]
    exact fun invite _ => listedAs_inviteItem invite

/-- The output is the notification with one more signature, over itself. -/
theorem signInvites_spec (roundTrips : codec.RoundTrips) {owner output : Bytes} {signatures : SignatureListT}
    {result : ValidatedInviteT} (signs : signInvites codec sodium keyring owner signatures result = .ok output) :
    ∃ d after last, signPieces codec sodium keyring owner signatures result = .ok (d, after) ∧
      output = codec.write (addSignatures (after ++ [last]) d) := by
  obtain ⟨⟨d, after⟩, pieces, signs⟩ := bind_eq_ok.mp signs
  obtain ⟨⟨text, all⟩, added, signs⟩ := bind_eq_ok.mp signs
  cases signs
  rw [addSign_eq roundTrips] at added
  cases made : sign sodium keyring (codec.write d) (serverKey owner) with
  | error e =>
    rw [made] at added
    cases added
  | ok last =>
    rw [made] at added
    cases added
    exact ⟨d, after, last, pieces, rfl⟩

/-- The invites are read back from the output, one by one. -/
theorem invitesOf_signInvites (roundTrips : codec.RoundTrips) {owner output : Bytes} {signatures : SignatureListT}
    {result : ValidatedInviteT} (signs : signInvites codec sodium keyring owner signatures result = .ok output) :
    List.Forall₂ ListedAs result.invites (invitesOf codec output) := by
  obtain ⟨d, after, last, pieces, rfl⟩ := signInvites_spec roundTrips signs
  obtain ⟨-, -, -, ⟨signed, lists, listed⟩, -⟩ := signPieces_spec roundTrips pieces
  rw [invitesOf, roundTrips]
  simp only
  rw [get?_addSignatures_of_ne (by decide), lists]
  exact listed

end Invites

/-- A published association has no invites. -/
theorem globalAssoc_no_invites (g : GlobalAssocT) :
    (parseMsg (D := D) protoPool .globalAssocT (globalAssocMsg g)).get? (ascii "invites") = none := by
  apply get?_parseMsg
  have names : ascii "invites" ∉ (protoPool.fields .globalAssocT).map FieldDescriptor.name := by decide
  exact fun field isField same => names (same ▸ List.mem_map_of_mem isField)

/-- What the signed association is, and what is signed at the end. -/
theorem bind3pidWith_signs {st : SharedTable} {env : ActionEnv} {bpa : Bind3pidDataT}
    {prepared : Prepared Bind3pidDataT} {counter counter' : ℕ} {signing : BindSigning}
    (gives : Gives (bind3pidWith signing st env bpa) counter prepared counter') :
    ∃ globalassoc tosign signatures result output, signing.assoc st.hostname globalassoc = .ok (tosign, signatures) ∧
      signing.invites st.hostname signatures result = .ok output ∧
      ∀ db, prepared.reply db = .ok { bpa with output := output } := by
  simp only [bind3pidWith, gives_bind, gives_lift, gives_getNext, gives_pure] at gives
  obtain ⟨_, _, _, _, _, _, ⟨signatures, _⟩, _, bindsGlobal, _, _, _, _, _, _, output, _, ⟨signed, _⟩, _, _, _, _, _, _,
    rfl, _⟩ := gives
  simp only [bindGlobal, gives_bind, gives_lift, gives_pure, Prod.mk.injEq] at bindsGlobal
  obtain ⟨_, _, _, _, _, _, ⟨tosign, _⟩, _, ⟨assoc, _⟩, _, _, _, ⟨rfl, _⟩, _⟩ := bindsGlobal
  exact ⟨_, tosign, _, _, output, assoc, signed, fun _ => rfl⟩

variable {key : Ed25519}

/-- The published association is signed first, and lists nothing else. -/
theorem signAssoc_listsOwn (roundTrips : codec.RoundTrips) (found : keyring (ascii "ed25519:0") = some key)
    (pair : key.IsPair sodium) {owner tosign : Bytes} {globalassoc : GlobalAssocT} {signatures : SignatureListT}
    (signed : signAssoc codec sodium keyring owner globalassoc = .ok (tosign, signatures)) :
    ListsOwn codec sodium key tosign := by
  obtain ⟨signature, made, signed⟩ := bind_eq_ok.mp signed
  cases signed
  obtain ⟨value, accepted, rfl⟩ := sign_eq_ok rfl found made
  have noSignatures := get?_parseMsg (D := D) (field_ne_signatures .globalAssocT) (globalAssocMsg globalassoc)
  have noUnsigned := get?_parseMsg (D := D) (field_ne_unsigned .globalAssocT) (globalAssocMsg globalassoc)
  obtain ⟨members, object⟩ : ∃ members,
      parseMsg (D := D) protoPool .globalAssocT (globalAssocMsg globalassoc) = .object members := ⟨_, parseMsg_eq ..⟩
  rw [pb2json, object] at accepted
  rw [object] at noSignatures noUnsigned
  rw [pb2signedjson, object, List.nil_append]
  intro content unsign signatures parsed s member
  rw [signedjson2unsigned_addSignatures roundTrips noSignatures noUnsigned] at parsed
  cases parsed
  obtain rfl : s = ((serverKey owner).signature value).read := by simpa using member
  have text : ((serverKey owner).signature value).read.value = value := Ed25519.cString_of_getSignature accepted
  rw [text]
  exact pair.accepts _ _ accepted

/-- A binding that signed everything lists the signature of its published association in its notification, which
has other content. -/
theorem bind3pid_lists_foreign (roundTrips : codec.RoundTrips) (found : keyring (ascii "ed25519:0") = some key)
    (signsOne : key.SignsOne sodium) {st : SharedTable} {env : ActionEnv} {bpa reply : Bind3pidDataT}
    {prepared : Prepared Bind3pidDataT} {counter counter' : ℕ}
    (gives : Gives (bind3pidWith (serverSigning codec sodium keyring) st env bpa) counter prepared counter') {db : DB}
    (answered : prepared.reply db = .ok reply) : ¬ ListsOwn codec sodium key reply.output := by
  obtain ⟨globalassoc, tosign, signatures, result, output, signed, invited, replies⟩ := bind3pidWith_signs gives
  rw [replies] at answered
  cases answered
  obtain ⟨signature, made, signed⟩ := bind_eq_ok.mp signed
  cases signed
  obtain ⟨value, accepted, rfl⟩ := sign_eq_ok rfl found made
  obtain ⟨d, after, last, pieces, rfl⟩ := signInvites_spec roundTrips invited
  obtain ⟨⟨members, rfl⟩, noSignatures, noUnsigned, ⟨elems, hasInvites, -⟩, handedOn⟩ :=
    signPieces_spec roundTrips pieces
  intro owns
  have listed : ((serverKey st.hostname).signature value).read ∈ (after ++ [last]).map SignatureT.read :=
    List.mem_map_of_mem (List.mem_append_left _ (handedOn.subset (List.mem_singleton_self _)))
  have verified := owns _ _ _ (signedjson2unsigned_addSignatures roundTrips noSignatures noUnsigned _ _ _) _ listed
  have text : ((serverKey st.hostname).signature value).read.value = value :=
    Ed25519.cString_of_getSignature accepted
  rw [text] at verified
  have same := roundTrips.injective (signsOne _ _ _ accepted verified)
  rw [same, globalAssoc_no_invites] at hasInvites
  cases hasInvites

/-- A master on an empty store, where somebody has validated an address. -/
def validatedStore : SharedTable := submitted
where
  start : SharedTable :=
    { maincounter := 1, logcounter := 1, maindb := StoreLevel.putFences .empty, isMaster := true, hostname := ascii "x" }
  asked : SharedTable :=
    (runAction { now := 1000002 } start (ValidateService.requestTokenAction start
      { currtime := 1000002, commit := { now := 1000002 } }
      { medium := ascii "email"
        reqtok := { email := ascii "a@x.com", clientSecret := ascii "q", sendAttempt := 1 } })).2
  submitted : SharedTable :=
    (runAction { now := 1000003 } asked (ValidateService.submitTokenAction asked
      { currtime := 1000003, commit := { now := 1000003 } }
      { subtok := { sid := ascii "2", clientSecret := ascii "q", token := ascii "111113" } })).2

/-- The notification for a binding of the address. -/
def exampleOutput : Except Exn Bytes :=
  match (bind3pidWith (serverSigning compactJson exampleSodium exampleKeyring) validatedStore
      { currtime := 1000004, commit := { now := 1000004 } }
      { subtok := { sid := ascii "2", clientSecret := ascii "q", mxid := ascii "@a:x" } }).run
        validatedStore.maincounter with
  | (.ok prepared, _) => (prepared.reply validatedStore.maindb).map Bind3pidDataT.output
  | (.error e, _) => .error e

/-- Even without an invite the notification lists a signature over the association. -/
theorem exampleOutput_lists_foreign :
    exampleOutput.map (fun output => decide (ListsOwn compactJson exampleSodium exampleKey output)) = .ok false := by
  decide +kernel

theorem bind3pid_lists_foreign_example :
    ∃ output, exampleOutput = .ok output ∧ ¬ ListsOwn compactJson exampleSodium exampleKey output := by
  have signs : (exampleOutput.map fun _ => ()) = .ok () := by decide +kernel
  rw [exampleOutput] at signs ⊢
  split at signs
  · next prepared counter gives =>
    cases answered : prepared.reply validatedStore.maindb with
    | error e =>
      rw [answered] at signs
      cases signs
    | ok reply =>
      exact ⟨reply.output, rfl, bind3pid_lists_foreign compactJson_roundTrips rfl exampleKey_signsOne gives answered⟩
  · cases signs

end Identt.Store.ThreePidService
