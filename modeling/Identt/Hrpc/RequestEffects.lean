import Identt.Hrpc.MasterEndpoint
import Identt.Store.IndexScan
import Identt.Store.TransactionOps

/-! # What a request does to the tables

For each request of the master: the table operations of the transaction that it commits, if it gets
that far, in terms of the records that it reads. All later results about requests go through this
description and not through the actions' code.
-/

namespace Identt.Hrpc

open Store Query ReadM ValidateService ThreePidService InviteService BlobDataService MailSmsService

/-- How `openSession` finds or makes the session for a probe: the session it goes on with, whether it
expired, what it writes and the counter after it. -/
inductive Opened (world : World) (now : UInt64) (counter : ℕ) (probe : ValidationSessionT) :
    ValidationSessionT → Bool → List TableOp → ℕ → Prop
  | kept (n : ℕ) (session : ValidationSessionT) (has : world .validationSession n = some session)
      (same : session.getKey .uValidationSessionMediumAddressClientSecret false =
        probe.getKey .uValidationSessionMediumAddressClientSecret false)
      (live : ¬ sessionValidLifetime < now - session.mtime) :
      Opened world now counter probe session false [] counter
  | reopened (n : ℕ) (session : ValidationSessionT) (has : world .validationSession n = some session)
      (same : session.getKey .uValidationSessionMediumAddressClientSecret false =
        probe.getKey .uValidationSessionMediumAddressClientSecret false)
      (late : sessionValidLifetime < now - session.mtime) :
      Opened world now counter probe { session with mtime := now } true
        [.add .validationSession { session with mtime := now }] counter
  | created (absent : ∀ n session, world .validationSession n = some session →
        session.getKey .uValidationSessionMediumAddressClientSecret false ≠
          probe.getKey .uValidationSessionMediumAddressClientSecret false)
      (free : world .validationSession (counter + 1) = none) :
      Opened world now counter probe { probe with id := counter + 1, mtime := now } false
        [.add .validationSession { probe with id := counter + 1, mtime := now }] (counter + 1)

/-- The session that a submission names, with the token that is stored for it. -/
structure Submitted (world : World) (now : UInt64) (subtok : SubmitTokenT) (sid : ℕ)
    (session : ValidationSessionT) : Prop where
  parsed : stoul subtok.sid = .ok sid
  token : ∃ n tokenauth, world .tokenAuth n = some tokenauth ∧ tokenauth.validationSession = sid ∧
    tokenauth.token = subtok.token
  has : world .validationSession sid = some session
  secret : session.clientSecret = subtok.clientSecret
  live : ¬ sessionValidLifetime < now - session.mtime

/-- The session that a caller may use: it knows number and secret, and the session was validated. -/
structure Usable (world : World) (subtok : SubmitTokenT) (sid : ℕ) (session : ValidationSessionT) : Prop where
  parsed : stoul subtok.sid = .ok sid
  given : subtok.clientSecret ≠ []
  has : world .validationSession sid = some session
  secret : session.clientSecret = subtok.clientSecret
  validated : session.validated ≠ 0

/-- The operations of the transaction that a request commits, made against a world from a counter. -/
inductive Writes (world : World) (hostname : Bytes) (env : ActionEnv) (counter : ℕ) :
    MasterRequest → List TableOp → ℕ → Prop
  | requestToken {data : RequestTokenDataT} {address : Bytes} {session : ValidationSessionT} {expired found : Bool}
      {opening : List TableOp} {tokenauth : TokenAuthT} {opened id taken : ℕ}
      (populated : populateAddress data.reqtok data.medium = .ok address)
      (opens : Opened world env.currtime counter
        { medium := data.medium, address := address, clientSecret := data.reqtok.clientSecret }
        session expired opening opened)
      (looked : LookedUp tokenAuthTable (world .tokenAuth) .uTokenAuthValidationSession
        { validationSession := session.id } (found, tokenauth))
      (sends : found = false ∨ expired = true ∨ tokenauth.sendAttemptNumber < data.reqtok.sendAttempt)
      (takes : Gives (takeId found tokenauth.id) opened id taken)
      (free : found = false → world .tokenAuth id = none) :
      Writes world hostname env counter (.requestToken data)
        (opening ++ [.add .tokenAuth (nextToken data env.currtime (!found || expired) id tokenauth),
          .add .parAvion (tokenMail (taken + 1) data address session
            (nextToken data env.currtime (!found || expired) id tokenauth).token)]) (taken + 1)
  | submitToken {data : SubmitTokenDataT} {sid : ℕ} {session : ValidationSessionT}
      (submitted : Submitted world env.currtime data.subtok sid session) (fresh : session.validated = 0) :
      Writes world hostname env counter (.submitToken data)
        [.add .validationSession { session with validated := 1, mtime := env.currtime }] counter
  | bind3pid {data : Bind3pidDataT} {sid : ℕ} {session : ValidationSessionT} {localFound globalFound : Bool}
      {localassoc : LocalAssocT} {globalassoc : GlobalAssocT} {tokens : List InviteTokenT}
      {tosign output : Bytes} {localId localTaken globalId globalTaken : ℕ}
      (usable : Usable world data.subtok sid session)
      (localLooked : LookedUp localAssocTable (world .localAssoc) .uLocalAssocMediumAddress
        { medium := session.medium, address := session.address } (localFound, localassoc))
      (localTakes : Gives (takeId localFound localassoc.id) counter localId localTaken)
      (localFree : localFound = false → world .localAssoc localId = none)
      (globalLooked : LookedUp globalAssocTable (world .globalAssoc) .uGlobalAssocOriginServerOriginId
        { originId := localId, originServer := hostname } (globalFound, globalassoc))
      (globalTakes : Gives (takeId globalFound globalassoc.id) localTaken globalId globalTaken)
      (globalFree : globalFound = false → world .globalAssoc globalId = none)
      (stored : ∀ token ∈ tokens, world .inviteToken token.id = some token) :
      Writes world hostname env counter (.bind3pid data)
        ([.add .localAssoc (boundLocal env data.subtok.mxid localId localassoc),
          .add .globalAssoc { boundGlobal env session data.subtok.mxid globalId globalassoc with sgAssoc := tosign }] ++
          tokens.map (fun token => .add .inviteToken { token with sentTs := env.currtime }) ++
          [.add .parAvion (bindMail (globalTaken + 1) session data.subtok.mxid output)]) (globalTaken + 1)
  | storeInvite {data : StoreInviteDataT} (tokenFree : world .inviteToken (counter + 1) = none)
      (keyFree : world .ephemeralPublicKey (counter + 2) = none) :
      Writes world hostname env counter (.storeInvite data)
        [.add .inviteToken (inviteToken (counter + 1) env data.invqry),
          .add .ephemeralPublicKey (ephemeralKey (counter + 2) env),
          .add .parAvion (inviteMail (counter + 3) env data.invqry)] (counter + 3)
  | pending {data : Mail.MailQueryT} :
      Writes world hostname env counter (.pending data)
        (data.payload.map fun done => .del .parAvion { id := done.id }) counter
  | getAccessKey {data : GetAccessDataT} {sid : ℕ} {session : ValidationSessionT}
      (usable : Usable world data.subtok sid session) (free : world .accessKey (counter + 1) = none) :
      Writes world hostname env counter (.getAccessKey data)
        [.add .accessKey (newAccessKey (counter + 1) env session)] (counter + 1)
  | setBlobData {data : SetBlobDataT} {keyid id taken : ℕ} {found : Bool} {blobstore : BlobStoreT}
      (looked : LookedUp blobStoreTable (world .blobStore) .uBlobStoreKeyIdTag
        { keyid := keyid, tag := data.accessblob.tag } (found, blobstore))
      (takes : Gives (takeId found blobstore.id) counter id taken)
      (free : found = false → world .blobStore id = none) :
      Writes world hostname env counter (.setBlobData data)
        [.add .blobStore (storedBlob data.accessblob id blobstore)] taken

section Validate

variable {st : SharedTable} {env : ActionEnv} {counter counter' : ℕ}

theorem openSession_gives (invariant : TableInvariant st.maindb) {probe session : ValidationSessionT}
    {expired : Bool} {transaction : TransactionT}
    (gives : Gives (openSession st env probe) counter (session, expired, transaction) counter') :
    ∃ ops, Opened (worldOf st.maindb) env.currtime counter probe session expired ops counter' ∧
      Built st.maindb transaction ops := by
  simp only [openSession, gives_bind, gives_lift] at gives
  obtain ⟨⟨found, stored⟩, _, ⟨call, rfl⟩, gives⟩ := gives
  have looked := (invariant .validationSession).lookedUp (List.mem_singleton_self _) call
  cases looked with
  | found n stored has same =>
    simp only [if_true] at gives
    split at gives
    · next late =>
      simp only [gives_bind, gives_lift, gives_pure, Prod.mk.injEq] at gives
      obtain ⟨_, _, ⟨inserted, rfl⟩, ⟨rfl, rfl, rfl⟩, rfl⟩ := gives
      exact ⟨_, .reopened n stored has same late, (Built.start _).insert .validationSession invariant inserted
        List.not_mem_nil⟩
    · next live =>
      simp only [gives_pure, Prod.mk.injEq] at gives
      obtain ⟨⟨rfl, rfl, rfl⟩, rfl⟩ := gives
      exact ⟨[], .kept n stored has same live, Built.start _⟩
  | absent none =>
    simp only [Bool.false_eq_true, if_false, gives_bind, gives_getNext, gives_lift, gives_pure,
      Prod.mk.injEq] at gives
    obtain ⟨_, _, ⟨rfl, rfl⟩, _, _, ⟨inserted, rfl⟩, ⟨rfl, rfl, rfl⟩, rfl⟩ := gives
    exact ⟨_, .created none (insert_free .validationSession invariant inserted rfl),
      (Built.start _).insert .validationSession invariant inserted List.not_mem_nil⟩

theorem Opened.names {world : World} {now : UInt64} {probe session : ValidationSessionT} {expired : Bool}
    {ops : List TableOp} (opened : Opened world now counter probe session expired ops counter') :
    ∀ op ∈ ops, op.name = .validationSession := by
  intro op member
  cases opened with
  | kept => exact (List.not_mem_nil member).elim
  | reopened => rw [List.mem_singleton.mp member]; rfl
  | created => rw [List.mem_singleton.mp member]; rfl

theorem sendToken_gives (invariant : TableInvariant st.maindb) {rtoka : RequestTokenDataT} {address : Bytes}
    {session : ValidationSessionT} {expired found : Bool} {tokenauth tokenauth' : TokenAuthT}
    {before transaction : TransactionT} {opening : List TableOp} (built : Built st.maindb before opening)
    (names : ∀ op ∈ opening, op.name = .validationSession)
    (gives : Gives (sendToken st env rtoka address session expired found tokenauth before) counter
      (tokenauth', transaction) counter') :
    ∃ id taken, Gives (takeId found tokenauth.id) counter id taken ∧ counter' = taken + 1 ∧
      (found = false → worldOf st.maindb .tokenAuth id = none) ∧
      Built st.maindb transaction
        (opening ++ [.add .tokenAuth (nextToken rtoka env.currtime (!found || expired) id tokenauth),
          .add .parAvion (tokenMail (taken + 1) rtoka address session
            (nextToken rtoka env.currtime (!found || expired) id tokenauth).token)]) := by
  simp only [sendToken, gives_bind, gives_lift, gives_getNext, gives_pure, Prod.mk.injEq] at gives
  obtain ⟨id, taken, takes, _, _, ⟨storedToken, rfl⟩, _, _, ⟨rfl, rfl⟩, _, _, ⟨storedMail, rfl⟩, ⟨rfl, rfl⟩,
    rfl⟩ := gives
  have others (name : TableName) (differ : name ≠ .validationSession) : name ∉ opening.map TableOp.name := by
    rintro member
    obtain ⟨op, inOpening, rfl⟩ := List.mem_map.mp member
    exact differ (names op inOpening)
  have withToken := built.insert .tokenAuth invariant storedToken (others _ (by decide))
  have withMail := withToken.insert .parAvion invariant storedMail (by
    rw [List.map_append, List.mem_append, not_or]
    exact ⟨others _ (by decide), by simp [TableOp.name]⟩)
  rw [List.append_assoc] at withMail
  exact ⟨id, taken, takes, rfl, insert_free .tokenAuth invariant storedToken, withMail⟩

/-- A request for a token finds or opens its session, looks at its token, and sends one or does not. -/
theorem requestToken_gives (invariant : TableInvariant st.maindb) {rtoka : RequestTokenDataT}
    {prepared : Prepared RequestTokenDataT}
    (gives : Gives (requestTokenAction st env rtoka) counter prepared counter') :
    ∃ address session expired opening opened found tokenauth,
      populateAddress rtoka.reqtok rtoka.medium = .ok address ∧
      Opened (worldOf st.maindb) env.currtime counter
        { medium := rtoka.medium, address := address, clientSecret := rtoka.reqtok.clientSecret }
        session expired opening opened ∧
      LookedUp tokenAuthTable (worldOf st.maindb .tokenAuth) .uTokenAuthValidationSession
        { validationSession := session.id } (found, tokenauth) ∧
      if found = false ∨ expired = true ∨ tokenauth.sendAttemptNumber < rtoka.reqtok.sendAttempt then
        ∃ id taken transaction, Gives (takeId found tokenauth.id) opened id taken ∧ counter' = taken + 1 ∧
          (found = false → worldOf st.maindb .tokenAuth id = none) ∧ prepared.trans = some transaction ∧ Built st.maindb transaction
            (opening ++ [.add .tokenAuth (nextToken rtoka env.currtime (!found || expired) id tokenauth),
              .add .parAvion (tokenMail (taken + 1) rtoka address session
                (nextToken rtoka env.currtime (!found || expired) id tokenauth).token)])
      else prepared.trans = none := by
  simp only [requestTokenAction, gives_bind, gives_lift] at gives
  obtain ⟨address, _, ⟨populated, rfl⟩, ⟨session, expired, before⟩, opened, opens, ⟨found, tokenauth⟩, _,
    ⟨call, rfl⟩, gives⟩ := gives
  obtain ⟨opening, opens, built⟩ := openSession_gives invariant opens
  have looked := (invariant .tokenAuth).lookedUp (List.mem_singleton_self _) call
  refine ⟨address, session, expired, opening, opened, found, tokenauth, populated, opens, looked, ?_⟩
  simp only [Bool.or_eq_true, Bool.not_eq_true', decide_eq_true_eq, or_assoc] at gives
  split
  · next sends =>
    simp only [sends, if_true, gives_bind, gives_pure] at gives
    obtain ⟨⟨sent, transaction⟩, _, send, rfl, rfl⟩ := gives
    obtain ⟨id, taken, takes, counted, free, built⟩ := sendToken_gives invariant built opens.names send
    exact ⟨id, taken, transaction, takes, counted, free, rfl, built⟩
  · next quiet =>
    simp only [quiet, if_false, gives_pure] at gives
    rw [← gives.1]

/-- The number of a session can be read off its token's key. -/
theorem tokenKey_inj {left right : TokenAuthT} :
    tokenAuthTable.getKey left .uTokenAuthValidationSession false =
      tokenAuthTable.getKey right .uTokenAuthValidationSession false ↔
      left.validationSession = right.validationSession := by
  constructor
  · intro same
    exact hex_injective _ (List.append_cancel_left same)
  · intro same
    simp only [tokenAuthTable, TokenAuthT.getKey, same]

/-- Looking a session up by its number. The number zero finds the fence, which is no session. -/
theorem getOne_session {db : DB} (invariant : TableInvariant db) {n : ℕ} {session : ValidationSessionT}
    (real : session ≠ default) :
    validationSessionTable.getOne db { id := n } .kValidationSession = .ok (true, session) ↔
      worldOf db .validationSession n = some session := by
  have represents := invariant .validationSession
  rcases Nat.eq_zero_or_pos n with rfl | probed
  · have zero : worldOf db .validationSession 0 = none := represents.zero
    have fence : db.get? (validationSessionTable.getKey { id := 0 } validationSessionTable.primaryKey false) = none ∨
        db.get? (validationSessionTable.getKey { id := 0 } validationSessionTable.primaryKey false) =
          some (.data .empty) := represents.fence
    simp only [zero, reduceCtorEq, iff_false]
    change validationSessionTable.fetch db { id := 0 } ≠ _
    rw [StoreTable.fetch]
    rcases fence with missing | empty
    · rw [missing]
      simp
    · rw [empty]
      rintro ⟨⟩
      exact real rfl
  · exact represents.getOne_id_iff (Nat.pos_iff_ne_zero.mp probed)

/-- A submission that gets through names a session and presents the token stored for it. -/
theorem submittedSession_eq_ok_iff (invariant : TableInvariant st.maindb) {subtok : SubmitTokenT}
    {session : ValidationSessionT} (real : session ≠ default) :
    submittedSession st env subtok = .ok session ↔
      ∃ sid, Submitted (worldOf st.maindb) env.currtime subtok sid session := by
  simp only [submittedSession, bind_eq_ok, require_eq_ok]
  constructor
  · rintro ⟨sid, parsed, ⟨found, tokenauth⟩, lookup, _, rfl, _, token, ⟨found, stored⟩, read, _, rfl, _, secret, _,
      live, ⟨⟩⟩
    have looked := (invariant .tokenAuth).lookedUp (List.mem_singleton_self _) lookup
    cases looked with
    | found n tokenauth has same =>
      have named := tokenKey_inj.mp same
      rw [getOne_session invariant real, named] at read
      exact ⟨sid, parsed, ⟨n, tokenauth, has, named, token⟩, read, secret, live⟩
  · rintro ⟨sid, parsed, ⟨n, tokenauth, has, named, token⟩, read, secret, live⟩
    have sameKey : tokenAuthTable.getKey tokenauth .uTokenAuthValidationSession false =
        tokenAuthTable.getKey { validationSession := sid } .uTokenAuthValidationSession false :=
      tokenKey_inj.mpr named
    have lookup := (invariant .tokenAuth).getOne_of_key (List.mem_singleton_self _) has sameKey
    refine ⟨sid, parsed, (true, tokenauth), lookup, (), rfl, (), token, (true, session), ?_, (), rfl, (), secret, (),
      live, rfl⟩
    rwa [getOne_session invariant real, named]

end Validate

section ThreePid

variable {st : SharedTable} {env : ActionEnv} {counter counter' : ℕ}

theorem validatedSession_eq_ok_iff (invariant : TableInvariant st.maindb) {sid : ℕ} (positive : sid ≠ 0)
    {clientSecret : Bytes} {session : ValidationSessionT} :
    validatedSession st env sid clientSecret = .ok session ↔
      worldOf st.maindb .validationSession sid = some session ∧ session.clientSecret = clientSecret ∧
        session.validated ≠ 0 := by
  have read (record : ValidationSessionT) :
      validationSessionTable.getOne st.maindb { id := sid } .kValidationSession = .ok (true, record) ↔
        worldOf st.maindb .validationSession sid = some record :=
    (invariant .validationSession).getOne_id_iff positive
  simp only [validatedSession, bind_eq_ok, require_eq_ok]
  constructor
  · rintro ⟨⟨found, stored⟩, call, _, ⟨rfl, secret⟩, checked⟩
    split at checked
    · split at checked <;> contradiction
    · next validated =>
      cases checked
      exact ⟨(read _).mp call, secret, validated⟩
  · rintro ⟨has, secret, validated⟩
    refine ⟨(true, session), (read _).mpr has, (), ⟨rfl, secret⟩, ?_⟩
    rw [if_neg validated]
    rfl

theorem checkSession_eq_ok_iff (invariant : TableInvariant st.maindb) {subtok : SubmitTokenT}
    {session : ValidationSessionT} :
    checkSession st env subtok = .ok session ↔ ∃ sid, Usable (worldOf st.maindb) subtok sid session := by
  simp only [checkSession, bind_eq_ok, require_eq_ok]
  constructor
  · rintro ⟨sid, parsed, _, positive, _, given, checked⟩
    obtain ⟨has, secret, validated⟩ := (validatedSession_eq_ok_iff invariant positive).mp checked
    exact ⟨sid, parsed, given, has, secret, validated⟩
  · rintro ⟨sid, parsed, given, has, secret, validated⟩
    have positive : sid ≠ 0 := (invariant .validationSession).ne_zero has
    exact ⟨sid, parsed, (), positive, (), given,
      (validatedSession_eq_ok_iff invariant positive).mpr ⟨has, secret, validated⟩⟩

theorem checkBinding_eq_ok_iff (invariant : TableInvariant st.maindb) {subtok : SubmitTokenT}
    {session : ValidationSessionT} :
    checkBinding st env subtok = .ok session ↔
      subtok.mxid ≠ [] ∧ ∃ sid, Usable (worldOf st.maindb) subtok sid session := by
  simp only [checkBinding, bind_eq_ok, require_eq_ok]
  constructor
  · rintro ⟨sid, parsed, _, positive, _, given, _, user, checked⟩
    obtain ⟨has, secret, validated⟩ := (validatedSession_eq_ok_iff invariant positive).mp checked
    exact ⟨user, sid, parsed, given, has, secret, validated⟩
  · rintro ⟨user, sid, parsed, given, has, secret, validated⟩
    have positive : sid ≠ 0 := (invariant .validationSession).ne_zero has
    exact ⟨sid, parsed, (), positive, (), given, (), user,
      (validatedSession_eq_ok_iff invariant positive).mpr ⟨has, secret, validated⟩⟩

theorem bindLocal_gives (invariant : TableInvariant st.maindb) {session : ValidationSessionT} {mxid : Bytes}
    {bound : LocalAssocT} {transaction : TransactionT}
    (gives : Gives (bindLocal st env session mxid) counter (bound, transaction) counter') :
    ∃ found localassoc id, LookedUp localAssocTable (worldOf st.maindb .localAssoc) .uLocalAssocMediumAddress
        { medium := session.medium, address := session.address } (found, localassoc) ∧
      Gives (takeId found localassoc.id) counter id counter' ∧ bound = boundLocal env mxid id localassoc ∧
      (found = false → worldOf st.maindb .localAssoc id = none) ∧ Built st.maindb transaction [.add .localAssoc bound] := by
  simp only [bindLocal, gives_bind, gives_lift, gives_pure, Prod.mk.injEq] at gives
  obtain ⟨⟨found, localassoc⟩, _, ⟨call, rfl⟩, id, _, takes, _, _, ⟨inserted, rfl⟩, ⟨rfl, rfl⟩, rfl⟩ := gives
  exact ⟨found, localassoc, id, (invariant .localAssoc).lookedUp (List.mem_singleton_self _) call, takes, rfl,
    insert_free .localAssoc invariant inserted, (Built.start _).insert .localAssoc invariant inserted List.not_mem_nil⟩

theorem bindGlobal_gives (invariant : TableInvariant st.maindb) {session : ValidationSessionT} {mxid : Bytes}
    {originId : ℕ} {before transaction : TransactionT} {ops : List TableOp} (built : Built st.maindb before ops)
    (untouched : .globalAssoc ∉ ops.map TableOp.name)
    {signing : BindSigning} {signatures : SignatureListT}
    (gives : Gives (bindGlobal signing st env session mxid originId before) counter (signatures, transaction)
      counter') :
    ∃ found globalassoc id tosign, LookedUp globalAssocTable (worldOf st.maindb .globalAssoc)
        .uGlobalAssocOriginServerOriginId { originId := originId, originServer := st.hostname }
        (found, globalassoc) ∧
      Gives (takeId found globalassoc.id) counter id counter' ∧
      (found = false → worldOf st.maindb .globalAssoc id = none) ∧
      Built st.maindb transaction
        (ops ++ [.add .globalAssoc { boundGlobal env session mxid id globalassoc with sgAssoc := tosign }]) := by
  simp only [bindGlobal, gives_bind, gives_lift, gives_pure, Prod.mk.injEq] at gives
  obtain ⟨⟨found, globalassoc⟩, _, ⟨call, rfl⟩, id, _, takes, ⟨tosign, _⟩, _, ⟨_, rfl⟩, _, _, ⟨inserted, rfl⟩,
    ⟨rfl, rfl⟩, rfl⟩ := gives
  exact ⟨found, globalassoc, id, tosign,
    (invariant .globalAssoc).lookedUp (List.mem_cons_self ..) call, takes,
    insert_free .globalAssoc invariant inserted, built.insert .globalAssoc invariant inserted untouched⟩

/-- The tokens found for an address are stored records, each once. -/
theorem inviteTokens_stored (invariant : TableInvariant st.maindb) {refer : InviteTokenT} {skip limit : ℕ}
    (positive : 0 < limit) {found : Bool} {tokenMap : OrderedMap ℕ InviteTokenT}
    (call : inviteTokenTable.getMany st.maindb refer .empty .iInviteTokenMediumAddress skip limit =
      .ok (found, tokenMap)) :
    (∀ token ∈ tokenMap.entries.map Prod.snd, worldOf st.maindb .inviteToken token.id = some token) ∧
      ((tokenMap.entries.map Prod.snd).map InviteTokenT.id).Nodup := by
  have represents : inviteTokenTable.Represents st.maindb (worldOf st.maindb .inviteToken) := invariant .inviteToken
  have listed : ∀ entry ∈ tokenMap.entries, worldOf st.maindb .inviteToken entry.1 = some entry.2 := by
    have answer : ∃ found map, inviteTokenTable.getMany st.maindb refer .empty .iInviteTokenMediumAddress skip
        limit = .ok (found, map) ∧ _ := represents.getMany_eq (List.mem_cons_self ..) refer positive
    obtain ⟨_, map, result, lookup⟩ := answer
    cases call.symm.trans result
    intro entry member
    have has := lookup entry.1
    rw [OrderedMap.get?_eq_some_iff.mpr member] at has
    split at has
    · contradiction
    · split at has
      · exact has.symm
      · contradiction
  have numbered : ∀ entry ∈ tokenMap.entries, entry.2.id = entry.1 := fun entry member =>
    represents.id_eq entry.1 entry.2 (listed entry member)
  constructor
  · intro token member
    obtain ⟨entry, inMap, rfl⟩ := List.mem_map.mp member
    rw [numbered entry inMap]
    exact listed entry inMap
  · have keys : (tokenMap.entries.map Prod.snd).map InviteTokenT.id = tokenMap.entries.map Prod.fst := by
      rw [List.map_map]
      exact List.map_congr_left numbered
    rw [keys]
    exact (List.pairwise_map.mpr tokenMap.sorted).imp ne_of_lt

/-- The loop over the invite tokens updates each of them. -/
theorem sendInvites_built (invariant : TableInvariant st.maindb) {session : ValidationSessionT} {mxid : Bytes}
    {tokens : List InviteTokenT} (distinct : (tokens.map InviteTokenT.id).Nodup)
    {dupSet : List (Bytes × Bytes)} {invites invites' : List InviteItemT}
    {transaction transaction' : TransactionT} {ops : List TableOp} (built : Built st.maindb transaction ops)
    (separate : ∀ op ∈ ops, ∀ token ∈ tokens,
      op.Unaffected (.add .inviteToken { token with sentTs := env.currtime }))
    (call : sendInvites st env session mxid tokens dupSet invites transaction = .ok (invites', transaction')) :
    Built st.maindb transaction'
      (ops ++ tokens.map fun token => .add .inviteToken { token with sentTs := env.currtime }) := by
  induction tokens generalizing dupSet invites transaction ops with
  | nil =>
    cases call
    simpa using built
  | cons token rest ih =>
    simp only [sendInvites, bind_eq_ok] at call
    obtain ⟨next, inserted, call⟩ := call
    obtain ⟨notInRest, distinctRest⟩ := List.nodup_cons.mp distinct
    obtain ⟨accepted, _, rfl⟩ := (insert_eq_ok_iff .inviteToken invariant).mp inserted
    have grown := built.concat accepted fun op member => separate op member token (List.mem_cons_self ..)
    have separateRest : ∀ op ∈ ops ++ [.add .inviteToken { token with sentTs := env.currtime }], ∀ other ∈ rest,
        op.Unaffected (.add .inviteToken { other with sentTs := env.currtime }) := by
      intro op member other inRest
      rcases List.mem_append.mp member with earlier | last
      · exact separate op earlier other (List.mem_cons_of_mem _ inRest)
      · rw [List.mem_singleton.mp last]
        refine TableOp.unaffected_add rfl ?_
        rintro same
        exact notInRest (List.mem_map.mpr ⟨other, inRest, same⟩)
    rw [List.map_cons, List.append_cons]
    split at call
    · exact ih distinctRest grown separateRest call
    · exact ih distinctRest grown separateRest call

/-- The address of the session is listed once, with the first token. -/
theorem sendInvites_invites {session : ValidationSessionT} {mxid : Bytes} {tokens : List InviteTokenT}
    {dupSet : List (Bytes × Bytes)} {invites invites' : List InviteItemT} {transaction transaction' : TransactionT}
    (call : sendInvites st env session mxid tokens dupSet invites transaction = .ok (invites', transaction')) :
    invites' = invites ++ if (session.medium, session.address) ∈ dupSet then []
      else (tokens.take 1).map fun token => inviteItem mxid { token with sentTs := env.currtime } := by
  induction tokens generalizing dupSet invites transaction with
  | nil =>
    cases call
    simp
  | cons token rest ih =>
    simp only [sendInvites, bind_eq_ok] at call
    obtain ⟨next, _, call⟩ := call
    split at call
    · next listed =>
      rw [ih call, if_pos listed, if_pos listed]
    · next isNew =>
      rw [ih call, if_pos (List.mem_cons_self ..), if_neg isNew, List.append_nil]
      rfl

/-- A binding that gets through to its commit: the tokens that it found, what it listed and signed, and
what it commits. -/
theorem bind3pid_details (invariant : TableInvariant st.maindb) {data : Bind3pidDataT}
    {prepared : Prepared Bind3pidDataT} (gives : Gives (bind3pidAction st env data) counter prepared counter') :
    ∃ sid session found tokenMap signatures invites output transaction front back,
      Usable (worldOf st.maindb) data.subtok sid session ∧
      inviteTokenTable.getMany st.maindb { medium := session.medium, address := session.address } .empty
        .iInviteTokenMediumAddress 0 99999 = .ok (found, tokenMap) ∧
      invites = ((tokenMap.entries.map Prod.snd).take 1).map (fun token =>
        inviteItem data.subtok.mxid { token with sentTs := env.currtime }) ∧
      env.signInvites st.hostname signatures
        { medium := session.medium
          address := session.address
          validatedAt := env.currtime
          invites := invites } = .ok output ∧
      prepared = ⟨some transaction, fun _ => .ok { data with output := output }⟩ ∧
      .inviteToken ∉ (front ++ back).map TableOp.name ∧
      Built st.maindb transaction (front ++ ((tokenMap.entries.map Prod.snd).map fun token =>
        TableOp.add .inviteToken { token with sentTs := env.currtime }) ++ back) ∧
      Writes (worldOf st.maindb) st.hostname env counter (.bind3pid data)
        (front ++ ((tokenMap.entries.map Prod.snd).map fun token =>
          TableOp.add .inviteToken { token with sentTs := env.currtime }) ++ back) counter' := by
  simp only [bind3pidAction, bind3pidWith, gives_bind, gives_lift, gives_getNext, gives_pure] at gives
  obtain ⟨session, _, ⟨checked, rfl⟩, ⟨bound, first⟩, localTaken, bindsLocal, gives⟩ := gives
  obtain ⟨⟨signatures, second⟩, globalTaken, bindsGlobal, ⟨known, tokenMap⟩, _, ⟨lookup, rfl⟩, gives⟩ := gives
  obtain ⟨⟨invites, third⟩, _, ⟨sent, rfl⟩, output, _, ⟨signed, rfl⟩, gives⟩ := gives
  obtain ⟨_, _, ⟨rfl, rfl⟩, _, _, ⟨storedMail, rfl⟩, rfl, rfl⟩ := gives
  obtain ⟨_, sid, usable⟩ := (checkBinding_eq_ok_iff invariant).mp checked
  obtain ⟨localFound, localassoc, localId, localLooked, localTakes, rfl, localFree, built⟩ :=
    bindLocal_gives invariant bindsLocal
  obtain ⟨globalFound, globalassoc, globalId, tosign, globalLooked, globalTakes, globalFree, built⟩ :=
    bindGlobal_gives invariant built (by simp [TableOp.name]) bindsGlobal
  obtain ⟨stored, distinct⟩ := inviteTokens_stored invariant (by omega) lookup
  have withTokens := sendInvites_built invariant distinct built (by
    intro op member token _
    apply TableOp.unaffected_of_ne
    simp only [List.cons_append, List.nil_append, List.mem_cons, List.not_mem_nil, or_false] at member
    rcases member with rfl | rfl <;> simp [TableOp.name]) sent
  have withMail := withTokens.insert .parAvion invariant storedMail (by
    simp [TableOp.name, Function.comp_def])
  have listed := sendInvites_invites sent
  rw [List.nil_append, if_neg List.not_mem_nil] at listed
  exact ⟨sid, session, known, tokenMap, signatures, invites, output, _, _, _, usable, lookup, listed, signed, rfl,
    by simp [TableOp.name], withMail,
    .bind3pid usable localLooked localTakes localFree globalLooked globalTakes globalFree stored⟩

/-- A binding that gets through to its commit. -/
theorem bind3pid_gives (invariant : TableInvariant st.maindb) {data : Bind3pidDataT}
    {prepared : Prepared Bind3pidDataT} (gives : Gives (bind3pidAction st env data) counter prepared counter') :
    ∃ transaction ops, prepared.trans = some transaction ∧ Built st.maindb transaction ops ∧
      Writes (worldOf st.maindb) st.hostname env counter (.bind3pid data) ops counter' := by
  obtain ⟨_, _, _, _, _, _, _, transaction, _, _, _, _, _, _, rfl, _, built, writes⟩ := bind3pid_details invariant gives
  exact ⟨transaction, _, rfl, built, writes⟩

end ThreePid

section Others

variable {st : SharedTable} {env : ActionEnv} {counter counter' : ℕ}

theorem storeInvite_gives (invariant : TableInvariant st.maindb) {data : StoreInviteDataT}
    {prepared : Prepared StoreInviteDataT} (gives : Gives (storeInviteAction st env data) counter prepared counter') :
    ∃ transaction ops, prepared.trans = some transaction ∧ Built st.maindb transaction ops ∧
      Writes (worldOf st.maindb) st.hostname env counter (.storeInvite data) ops counter' := by
  simp only [storeInviteAction, gives_bind, gives_lift, gives_getNext, gives_pure] at gives
  -- the checks, then each record with the identifier that it takes
  obtain ⟨_, _, ⟨_, rfl⟩, _, _, ⟨_, rfl⟩, _, _, ⟨_, rfl⟩, _, _, ⟨_, rfl⟩, gives⟩ := gives
  obtain ⟨_, _, ⟨rfl, rfl⟩, first, _, ⟨storedToken, rfl⟩, gives⟩ := gives
  obtain ⟨_, _, ⟨_, rfl⟩, _, _, ⟨_, rfl⟩, _, _, ⟨rfl, rfl⟩, second, _, ⟨storedKey, rfl⟩, gives⟩ := gives
  obtain ⟨_, _, ⟨rfl, rfl⟩, third, _, ⟨storedMail, rfl⟩, rfl, rfl⟩ := gives
  have built := (((Built.start _).insert .inviteToken invariant storedToken List.not_mem_nil).insert
    .ephemeralPublicKey invariant storedKey (by simp [TableOp.name])).insert .parAvion invariant storedMail
    (by simp [TableOp.name])
  exact ⟨_, _, rfl, built, .storeInvite (insert_free .inviteToken invariant storedToken rfl)
    (insert_free .ephemeralPublicKey invariant storedKey rfl)⟩

/-- Deletions of outgoing messages are built one by one, whatever is stored. -/
theorem dropDone_built (db : DB) (payload : List Mail.MPayloadT) :
    Built db (dropDone payload) (payload.map fun done => .del .parAvion { id := done.id }) := by
  have grown (transaction : TransactionT) (ops : List TableOp) (built : Built db transaction ops) :
      Built db (payload.foldl (fun transaction done =>
        (parAvionTable.delRecord { id := done.id } transaction).2) transaction)
        (ops ++ payload.map fun done => .del .parAvion { id := done.id }) := by
    induction payload generalizing transaction ops with
    | nil => simpa using built
    | cons done rest ih =>
      rw [List.map_cons, List.append_cons, List.foldl_cons, StoreTable.delRecord_eq]
      have noKeys : TableName.parAvion.table.secondaryKeys = [] := rfl
      exact ih _ _ (built.concat (TableOp.accepted_del noKeys _ { id := done.id })
        fun earlier _ => TableOp.unaffected_del noKeys earlier _)
  exact grown {} [] (Built.start db)

theorem getAccessKey_gives (invariant : TableInvariant st.maindb) {data : GetAccessDataT}
    {prepared : Prepared GetAccessDataT} (gives : Gives (getAccessKeyAction st env data) counter prepared counter')
    {transaction : TransactionT} (commits : prepared.trans = some transaction) :
    ∃ ops, Built st.maindb transaction ops ∧
      Writes (worldOf st.maindb) st.hostname env counter (.getAccessKey data) ops counter' := by
  simp only [getAccessKeyAction, gives_bind, gives_lift] at gives
  obtain ⟨session, _, ⟨checked, rfl⟩, ⟨found, accesskey⟩, _, ⟨_, rfl⟩, gives⟩ := gives
  obtain ⟨sid, usable⟩ := (checkSession_eq_ok_iff invariant).mp checked
  split at gives
  · simp only [gives_pure] at gives
    obtain ⟨rfl, _⟩ := gives
    contradiction
  · next absent =>
    simp only [gives_bind, gives_getNext, gives_lift, gives_pure] at gives
    obtain ⟨_, _, ⟨rfl, rfl⟩, _, _, ⟨stored, rfl⟩, rfl, rfl⟩ := gives
    cases commits
    exact ⟨_, (Built.start _).insert .accessKey invariant stored List.not_mem_nil,
      .getAccessKey usable (insert_free .accessKey invariant stored (Bool.eq_false_iff.mpr absent))⟩

theorem setBlobData_gives (invariant : TableInvariant st.maindb) {data : SetBlobDataT}
    {prepared : Prepared SetBlobDataT} (gives : Gives (setBlobDataAction st env data) counter prepared counter') :
    ∃ transaction ops, prepared.trans = some transaction ∧ Built st.maindb transaction ops ∧
      Writes (worldOf st.maindb) st.hostname env counter (.setBlobData data) ops counter' := by
  simp only [setBlobDataAction, gives_bind, gives_lift, gives_pure] at gives
  obtain ⟨accesskey, _, ⟨_, rfl⟩, ⟨found, blobstore⟩, _, ⟨call, rfl⟩, id, _, takes, _, _, ⟨stored, rfl⟩, rfl,
    rfl⟩ := gives
  have looked := (invariant .blobStore).lookedUp (List.mem_singleton_self _) call
  exact ⟨_, _, rfl, (Built.start _).insert .blobStore invariant stored List.not_mem_nil,
    .setBlobData looked takes (insert_free .blobStore invariant stored)⟩

end Others

/-- What a request commits is a transaction of the operations that are described for it. -/
theorem read_writes {st : SharedTable} (invariant : TableInvariant st.maindb) {env : ActionEnv}
    {request : MasterRequest} {counter counter' : ℕ} {prepared : Prepared MasterRequest}
    (gives : Gives (request.read st env) counter prepared counter') {transaction : TransactionT}
    (commits : prepared.trans = some transaction) :
    ∃ ops, Writes (worldOf st.maindb) st.hostname env counter request ops counter' ∧
      Built st.maindb transaction ops := by
  cases request with
  | requestToken data =>
    simp only [MasterRequest.read, gives_bind, gives_pure] at gives
    obtain ⟨answer, _, gives, rfl, rfl⟩ := gives
    obtain ⟨address, session, expired, opening, opened, found, tokenauth, populated, opens, looked, outcome⟩ :=
      requestToken_gives invariant gives
    change answer.trans = _ at commits
    split at outcome
    · next sends =>
      obtain ⟨id, taken, sent, takes, rfl, free, committed, built⟩ := outcome
      rw [commits] at committed
      cases committed
      exact ⟨_, .requestToken populated opens looked sends takes free, built⟩
    · rw [outcome] at commits
      contradiction
  | submitToken data =>
    simp only [MasterRequest.read, gives_bind, gives_pure, submitTokenAction, gives_lift] at gives
    obtain ⟨answer, _, ⟨session, _, ⟨submitted, rfl⟩, gives⟩, rfl, rfl⟩ := gives
    split at gives
    · simp only [gives_pure] at gives
      obtain ⟨rfl, _⟩ := gives
      contradiction
    · next fresh =>
      simp only [gives_bind, gives_lift, gives_pure] at gives
      obtain ⟨_, _, ⟨stored, rfl⟩, rfl, rfl⟩ := gives
      cases commits
      have accepted := ((insert_eq_ok_iff .validationSession invariant).mp stored).1
      have real : session ≠ default := by
        rintro rfl
        exact accepted.id_ne_zero rfl
      obtain ⟨sid, submitted⟩ := (submittedSession_eq_ok_iff invariant real).mp submitted
      exact ⟨_, .submitToken submitted (by omega),
        (Built.start _).insert .validationSession invariant stored List.not_mem_nil⟩
  | getValidated3pid data =>
    simp only [MasterRequest.read, gives_bind, gives_pure, getValidated3pidAction, gives_lift] at gives
    obtain ⟨answer, _, ⟨_, _, _, rfl, _⟩, rfl, _⟩ := gives
    contradiction
  | bind3pid data =>
    simp only [MasterRequest.read, gives_bind, gives_pure] at gives
    obtain ⟨answer, _, gives, rfl, rfl⟩ := gives
    obtain ⟨built, ops, committed, isBuilt, writes⟩ := bind3pid_gives invariant gives
    cases committed.symm.trans commits
    exact ⟨ops, writes, isBuilt⟩
  | storeInvite data =>
    simp only [MasterRequest.read, gives_bind, gives_pure] at gives
    obtain ⟨answer, _, gives, rfl, rfl⟩ := gives
    obtain ⟨built, ops, committed, isBuilt, writes⟩ := storeInvite_gives invariant gives
    cases committed.symm.trans commits
    exact ⟨ops, writes, isBuilt⟩
  | pending data =>
    simp only [MasterRequest.read, gives_bind, gives_pure, pendingAction] at gives
    obtain ⟨answer, _, gives, rfl, rfl⟩ := gives
    split at gives
    · simp only [gives_pure] at gives
      obtain ⟨rfl, _⟩ := gives
      contradiction
    · simp only [gives_pure] at gives
      obtain ⟨rfl, rfl⟩ := gives
      cases commits
      exact ⟨_, .pending, dropDone_built st.maindb data.payload⟩
  | getAccessKey data =>
    simp only [MasterRequest.read, gives_bind, gives_pure] at gives
    obtain ⟨answer, _, gives, rfl, rfl⟩ := gives
    obtain ⟨ops, isBuilt, writes⟩ := getAccessKey_gives invariant gives commits
    exact ⟨ops, writes, isBuilt⟩
  | setBlobData data =>
    simp only [MasterRequest.read, gives_bind, gives_pure] at gives
    obtain ⟨answer, _, gives, rfl, rfl⟩ := gives
    obtain ⟨built, ops, committed, isBuilt, writes⟩ := setBlobData_gives invariant gives
    cases committed.symm.trans commits
    exact ⟨ops, writes, isBuilt⟩

end Identt.Hrpc
