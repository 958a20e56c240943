import Identt.Hrpc.SessionSteps

/-! # Where tokens are sent

A token goes to the address of the request that asks for it, under the number of the session that the
request finds. The session is looked up by medium, address and secret joined into one key, so it can
be another address's session; then the token that validates that address goes elsewhere.
-/

namespace Identt.Hrpc

open Store Query ReadM ValidateService

/-- An outgoing message with a token in it. -/
structure CarriesToken (mail : ParAvionT) (payload : Mail.MPayloadT) (mpone : Mail.MPOneT) : Prop where
  payload_eq : mail.payload = some payload
  actkey : payload.actkey = .aAuthToken
  mpone_eq : payload.mpone = some mpone

/-- Every token on its way goes to the address of the session that it validates. -/
def Addressed (world : World) : Prop :=
  ∀ n mail payload mpone, world .parAvion n = some mail → CarriesToken mail payload mpone →
    ∀ s session, world .validationSession s = some session → mpone.sid = toString s →
      payload.medium = session.medium ∧ payload.address = session.address

/-- Every token on its way is for a stored session. -/
def Named (world : World) : Prop :=
  ∀ n mail payload mpone, world .parAvion n = some mail → CarriesToken mail payload mpone →
    ∃ s session, world .validationSession s = some session ∧ mpone.sid = toString s

/-- A request for the session makes `RequestTokenAction` send a token: the session expired, or the
attempt's number is above the one stored with the session's token, if there is one. -/
def Sends (world : World) (now : UInt64) (session : ValidationSessionT) (sendAttempt : ℤ) : Prop :=
  sessionValidLifetime < now - session.mtime ∨
    ∀ m tokenauth, world .tokenAuth m = some tokenauth → tokenauth.validationSession = session.id →
      tokenauth.sendAttemptNumber < sendAttempt

/-- The key under which a session is looked up. -/
def sessionKey (medium address clientSecret : Bytes) : Bytes :=
  encodeSecondaryKey .uValidationSessionMediumAddressClientSecret
    [.strn medium, .strn address, .strn clientSecret]

/-- The request is for a token, is going to send it, and joins medium, address and secret to the key of
a stored session with another medium or address. -/
def Misdirects (st : SharedTable) (label : ServeStep) : Prop :=
  label.2.commit.logPut = true ∧ label.2.commit.dataWrite = true ∧
    ∃ data address n session, label.1 = .requestToken data ∧
      populateAddress data.reqtok data.medium = .ok address ∧
      worldOf st.maindb .validationSession n = some session ∧
      sessionKey session.medium session.address session.clientSecret =
        sessionKey data.medium address data.reqtok.clientSecret ∧
      ¬ (session.medium = data.medium ∧ session.address = address) ∧
      Sends (worldOf st.maindb) label.2.currtime session data.reqtok.sendAttempt

section Total

variable {st : SharedTable} {env : ActionEnv}

theorem insert_total {db : DB} (name : TableName) (invariant : TableInvariant db) {record : name.Record}
    (acceptable : name.table.Acceptable (worldOf db name) record) {upsert : Bool}
    (allowed : worldOf db name (name.table.id record) = none ∨ upsert = true) (transaction : TransactionT)
    (refusal : String) : ∃ transaction', name.table.insert db record transaction upsert refusal = .ok transaction' :=
  ⟨_, (insert_eq_ok_iff name invariant).mpr ⟨acceptable, allowed, rfl⟩⟩

/-- Opening a session does not fail. -/
theorem openSession_total (consistent : Consistent st) {probe : ValidationSessionT}
    (found : probe.notfound = false) : Succeeds (openSession st env probe) st.maincounter := by
  have invariant := consistent.invariant
  have represents : validationSessionTable.Represents st.maindb (worldOf st.maindb .validationSession) :=
    invariant .validationSession
  obtain ⟨answer, call, looked⟩ := represents.getOne_total (List.mem_singleton_self _) probe
  apply succeeds_lift_bind call
  cases looked with
  | found n session has same =>
    simp only [if_true]
    split
    · have acceptable : validationSessionTable.Acceptable (worldOf st.maindb .validationSession)
          { session with mtime := env.currtime } :=
        acceptable_update represents has (represents.id_eq n session has) (represents.found n session has)
          fun keytype member => by rw [List.mem_singleton.mp member]; rfl
      obtain ⟨transaction, inserted⟩ := insert_total .validationSession invariant acceptable (.inr rfl) {}
        "Cannot Insert vsession"
      exact succeeds_lift_bind inserted (succeeds_pure _ _)
    · exact succeeds_pure _ _
  | absent none =>
    have acceptable : validationSessionTable.Acceptable (worldOf st.maindb .validationSession)
        { probe with id := st.maincounter + 1, mtime := env.currtime } :=
      acceptable_new (Nat.succ_ne_zero _) found fun keytype member => by
        rw [List.mem_singleton.mp member]
        exact none
    have free := consistent.numbered.free .validationSession (Nat.lt_succ_self _)
    obtain ⟨transaction, inserted⟩ := insert_total .validationSession invariant acceptable (.inl free) {}
      "Cannot Insert vsession"
    exact succeeds_bind (gives_getNext.mpr ⟨rfl, rfl⟩) (succeeds_lift_bind inserted (succeeds_pure _ _))

/-- Sending a token does not fail. -/
theorem sendToken_total (consistent : Consistent st) {opened : ℕ} (grows : st.maincounter ≤ opened)
    {data : RequestTokenDataT} {address : Bytes} {session : ValidationSessionT} {expired found : Bool}
    {tokenauth : TokenAuthT} {transaction : TransactionT}
    (looked : LookedUp tokenAuthTable (worldOf st.maindb .tokenAuth) .uTokenAuthValidationSession
      { validationSession := session.id } (found, tokenauth)) :
    Succeeds (sendToken st env data address session expired found tokenauth transaction) opened := by
  have invariant := consistent.invariant
  have represents : tokenAuthTable.Represents st.maindb (worldOf st.maindb .tokenAuth) := invariant .tokenAuth
  obtain ⟨id, taken, takes⟩ : ∃ id taken, Gives (takeId found tokenauth.id) opened id taken :=
    ⟨_, _, gives_takeId.mpr ⟨rfl, rfl⟩⟩
  have takenGrows := takes.grows
  have accepted : tokenAuthTable.Acceptable (worldOf st.maindb .tokenAuth)
        (nextToken data env.currtime (!found || expired) id tokenauth) ∧
      (worldOf st.maindb .tokenAuth id = none ∨ found = true) := by
    have taken := (gives_takeId.mp takes).1
    cases looked with
    | found n _ has same =>
      have sameId : id = n := taken.trans (represents.id_eq n tokenauth has)
      refine ⟨acceptable_update represents has sameId (represents.found n tokenauth has) fun keytype member => ?_,
        .inr rfl⟩
      rw [List.mem_singleton.mp member]
      rfl
    | absent none =>
      have isNew : id = opened + 1 := taken
      refine ⟨acceptable_new ?_ rfl fun keytype member => ?_, .inl ?_⟩
      · change id ≠ 0
        omega
      · rw [List.mem_singleton.mp member]
        exact none
      · exact consistent.numbered.free .tokenAuth (by omega)
  obtain ⟨withToken, storedToken⟩ := insert_total .tokenAuth invariant accepted.1 accepted.2 transaction
    "Cannot Insert tokenauth"
  have mailAccepted : parAvionTable.Acceptable (worldOf st.maindb .parAvion) (tokenMail (taken + 1) data address
      session (nextToken data env.currtime (!found || expired) id tokenauth).token) :=
    acceptable_new (Nat.succ_ne_zero _) rfl fun keytype member => (List.not_mem_nil member).elim
  have mailFree : worldOf st.maindb .parAvion (taken + 1) = none :=
    consistent.numbered.free .parAvion (by omega)
  obtain ⟨withMail, storedMail⟩ := insert_total .parAvion invariant mailAccepted (.inl mailFree) withToken
    "Cannot Insert paravion"
  exact succeeds_bind takes (succeeds_lift_bind storedToken (succeeds_bind (gives_getNext.mpr ⟨rfl, rfl⟩)
    (succeeds_lift_bind storedMail (succeeds_pure _ _))))

/-- A request for a token fails only where its address is refused. -/
theorem requestToken_total (consistent : Consistent st) {data : RequestTokenDataT} {address : Bytes}
    (populated : populateAddress data.reqtok data.medium = .ok address) :
    Succeeds (requestTokenAction st env data) st.maincounter := by
  obtain ⟨⟨session, expired, transaction⟩, opened, opens⟩ : Succeeds (openSession st env
      { medium := data.medium, address := address, clientSecret := data.reqtok.clientSecret }) st.maincounter :=
    openSession_total consistent rfl
  obtain ⟨⟨found, tokenauth⟩, call, looked⟩ := (consistent.invariant .tokenAuth).getOne_total
    (List.mem_singleton_self _) { validationSession := session.id }
  apply succeeds_lift_bind populated
  apply succeeds_bind opens
  apply succeeds_lift_bind call
  simp only
  split
  · obtain ⟨answer, counter, sends⟩ := sendToken_total consistent opens.grows looked
    exact succeeds_bind sends (succeeds_pure _ _)
  · exact succeeds_pure _ _

end Total

section Step

variable {db : DB} {world : World}

/-- Whether the token that is stored for a session keeps a request from sending one. -/
theorem attempt_iff_of_lookedUp (represents : RepresentsAll db world) {sid : ℕ} {found : Bool} {tokenauth : TokenAuthT}
    (looked : LookedUp tokenAuthTable (world .tokenAuth) .uTokenAuthValidationSession
      { validationSession := sid } (found, tokenauth)) (sendAttempt : ℤ) :
    (found = false ∨ tokenauth.sendAttemptNumber < sendAttempt) ↔
      ∀ m stored, world .tokenAuth m = some stored → stored.validationSession = sid →
        stored.sendAttemptNumber < sendAttempt := by
  cases looked with
  | found n _ has same =>
    simp only [Bool.true_eq_false, false_or]
    constructor
    · intro higher m stored hasStored named
      have sameKey := same.trans (tokenKey_inj.mpr named.symm)
      have here : n = m := (represents .tokenAuth).unique (List.mem_singleton_self _) has hasStored sameKey
      subst here
      rwa [← Option.some.inj (has.symm.trans hasStored)]
    · intro all
      exact all n tokenauth has (tokenKey_inj.mp same)
  | absent none =>
    simp only [true_or, true_iff]
    intro m stored hasStored named
    exact (none m stored hasStored (tokenKey_inj.mpr named)).elim

variable {now : UInt64} {counter counter' : ℕ} {probe session : ValidationSessionT} {expired : Bool}
  {ops : List TableOp}

/-- The session that is opened is stored afterwards. -/
theorem Opened.stored (represents : RepresentsAll db world)
    (opened : Opened world now counter probe session expired ops counter') :
    ops.foldl TableOp.apply world .validationSession session.id = some session := by
  cases opened with
  | kept n _ has same live =>
    have id_eq : session.id = n := (represents .validationSession).id_eq n session has
    rw [id_eq]
    exact has
  | reopened n session has same late =>
    rw [List.foldl_cons, List.foldl_nil, apply_add_self]
    exact Function.update_self ..
  | created absent free =>
    rw [List.foldl_cons, List.foldl_nil, apply_add_self]
    exact Function.update_self ..

/-- The session that is opened is a stored one with the probe's key, or has the probe's fields. -/
theorem Opened.found_or_new (opened : Opened world now counter probe session expired ops counter') :
    (∃ n stored, world .validationSession n = some stored ∧
      sessionKey stored.medium stored.address stored.clientSecret =
        sessionKey probe.medium probe.address probe.clientSecret ∧
      session.medium = stored.medium ∧ session.address = stored.address ∧ session.id = stored.id ∧
      (expired = true ↔ sessionValidLifetime < now - stored.mtime)) ∨
    (session.medium = probe.medium ∧ session.address = probe.address ∧
      ∀ n stored, world .validationSession n = some stored →
        sessionKey stored.medium stored.address stored.clientSecret ≠
          sessionKey probe.medium probe.address probe.clientSecret) := by
  cases opened with
  | kept n _ has same live => exact .inl ⟨n, session, has, same, rfl, rfl, rfl, by simpa using live⟩
  | reopened n stored has same late => exact .inl ⟨n, stored, has, same, rfl, rfl, rfl, by simpa using late⟩
  | created absent free => exact .inr ⟨rfl, rfl, absent⟩

/-- A request for a token opens a session and sends a token for it. -/
structure TokenSent (world : World) (env : ActionEnv) (counter : ℕ) (data : RequestTokenDataT) (address : Bytes)
    (session : ValidationSessionT) (expired : Bool) (opening : List TableOp) (opened : ℕ) : Prop where
  populated : populateAddress data.reqtok data.medium = .ok address
  opens : Opened world env.currtime counter
    { medium := data.medium, address := address, clientSecret := data.reqtok.clientSecret }
    session expired opening opened
  sends : expired = true ∨ ∀ m stored, world .tokenAuth m = some stored →
    stored.validationSession = session.id → stored.sendAttemptNumber < data.reqtok.sendAttempt

/-- A token that is sent goes the wrong way exactly when the request meets a session with its key, but
with another medium or address, and is going to send a token for it. -/
theorem TokenSent.misdirected_iff {st : SharedTable} (invariant : TableInvariant st.maindb) {env : ActionEnv}
    {data : RequestTokenDataT} {address : Bytes} {opening : List TableOp} {opened : ℕ}
    (sent : TokenSent (worldOf st.maindb) env counter data address session expired opening opened)
    (logged : env.commit.logPut = true) (written : env.commit.dataWrite = true) :
    Misdirects st (.requestToken data, env) ↔ ¬ (session.medium = data.medium ∧ session.address = address) := by
  have represents : validationSessionTable.Represents st.maindb (worldOf st.maindb .validationSession) :=
    invariant .validationSession
  constructor
  · rintro ⟨_, _, data', address', n, stored, ⟨⟩, populated, has, same, other, _⟩ here
    obtain rfl : address = address' := Except.ok.inj (sent.populated.symm.trans populated)
    rcases sent.opens.found_or_new with ⟨m, found, hasFound, sameFound, medium, addr, _⟩ | ⟨_, _, absent⟩
    · have unique : m = n := represents.unique (List.mem_singleton_self _) hasFound has (sameFound.trans same.symm)
      subst unique
      cases hasFound.symm.trans has
      exact other ⟨medium.symm.trans here.1, addr.symm.trans here.2⟩
    · exact absent n stored has same
  · intro other
    rcases sent.opens.found_or_new with ⟨n, found, has, same, medium, addr, sameId, late⟩ | ⟨medium, addr, _⟩
    · refine ⟨logged, written, data, address, n, found, rfl, sent.populated, has, same, ?_, ?_⟩
      · rwa [← medium, ← addr]
      · rw [Sends, ← late, ← sameId]
        exact sent.sends
    · exact (other ⟨medium, addr⟩).elim

/-- The tokens on their way after a request: those before, and the one that a request for a token sends. -/
theorem Writes.token_mail (represents : RepresentsAll db world) {hostname : Bytes} {env : ActionEnv}
    {request : MasterRequest} (writes : Writes world hostname env counter request ops counter') {n : ℕ}
    {mail : ParAvionT} {payload : Mail.MPayloadT} {mpone : Mail.MPOneT}
    (has : ops.foldl TableOp.apply world .parAvion n = some mail) (carries : CarriesToken mail payload mpone) :
    world .parAvion n = some mail ∨
    ∃ data address session expired opening opened, request = .requestToken data ∧
      TokenSent world env counter data address session expired opening opened ∧
      ops.foldl TableOp.apply world .validationSession session.id = some session ∧
      payload.medium = data.medium ∧ payload.address = address ∧ mpone.sid = toString session.id := by
  rcases foldl_apply_cases has with old | ⟨added, _⟩
  · exact .inl old
  right
  have touches := writes.name_mem added
  cases writes with
  | @requestToken data address session expired found opening tokenauth opened id taken populated opens looked
      sends takes free =>
    have isMail : TableOp.add .parAvion mail = .add .parAvion (tokenMail (taken + 1) data address session
        (nextToken data env.currtime (!found || expired) id tokenauth).token) := by
      rcases List.mem_append.mp added with inOpening | isLast
      · have wrongTable := opens.names _ inOpening
        contradiction
      · simpa using isLast
    cases isMail
    obtain ⟨⟨⟩, _, ⟨⟩⟩ := carries
    refine ⟨data, address, session, expired, opening, opened, rfl, ⟨populated, opens, ?_⟩, ?_, rfl, rfl, rfl⟩
    · rcases sends with isNew | late | higher
      · exact .inr ((attempt_iff_of_lookedUp represents looked _).mp (.inl isNew))
      · exact .inl late
      · exact .inr ((attempt_iff_of_lookedUp represents looked _).mp (.inr higher))
    · rw [List.foldl_append, foldl_apply_of_notMem (by simp [TableOp.name])]
      exact opens.stored represents
  | @bind3pid data sid session localFound globalFound localassoc globalassoc tokens tosign output localId
      localTaken globalId globalTaken =>
    obtain rfl : mail = ThreePidService.bindMail (globalTaken + 1) session data.subtok.mxid output := by simpa using added
    obtain ⟨⟨⟩, wrongKind, _⟩ := carries
    contradiction
  | @storeInvite data =>
    obtain rfl : mail = InviteService.inviteMail (counter + 3) env data.invqry := by simpa using added
    obtain ⟨⟨⟩, wrongKind, _⟩ := carries
    contradiction
  | pending => simp at added
  | submitToken | getAccessKey | setBlobData => simp [MasterRequest.tables, TableOp.name] at touches

end Step

/-- What the proof carries along a run. -/
structure Tracked (st : SharedTable) : Prop where
  consistent : Consistent st
  named : Named (worldOf st.maindb)
  addressed : Addressed (worldOf st.maindb)

/-- What serving a request does to the tokens on their way. -/
theorem serve_token_mail {st : SharedTable} (invariant : TableInvariant st.maindb) (request : MasterRequest)
    (env : ActionEnv) {n : ℕ} {mail : ParAvionT} {payload : Mail.MPayloadT} {mpone : Mail.MPOneT}
    (has : worldOf (serve st request env).2.maindb .parAvion n = some mail)
    (carries : CarriesToken mail payload mpone) :
    worldOf st.maindb .parAvion n = some mail ∨
    ∃ data address session expired opening opened, request = .requestToken data ∧
      env.commit.logPut = true ∧ env.commit.dataWrite = true ∧
      TokenSent (worldOf st.maindb) env st.maincounter data address session expired opening opened ∧
      worldOf (serve st request env).2.maindb .validationSession session.id = some session ∧
      payload.medium = data.medium ∧ payload.address = address ∧ mpone.sid = toString session.id := by
  obtain ⟨_, same | ⟨ops, writes, logged, written, represents⟩⟩ := serve_cases invariant request env
  · rw [← same.world_eq] at has
    exact .inl has
  · rw [← represents.world_eq] at has ⊢
    rcases writes.token_mail invariant has carries with old | ⟨data, address, session, expired, opening, opened,
      isRequest, sent, stored, payloadEq⟩
    · exact .inl old
    · exact .inr ⟨data, address, session, expired, opening, opened, isRequest, logged, written, sent, stored, payloadEq⟩

theorem Tracked.named_step {st : SharedTable} (tracked : Tracked st) (label : ServeStep) :
    Named (worldOf (serveStep st label).maindb) := by
  intro n mail payload mpone has carries
  rcases serve_token_mail tracked.consistent.invariant label.1 label.2 has carries with old | ⟨_, _, session, _, _, _,
    _, _, _, _, stored, _, _, sid⟩
  · obtain ⟨s, session, hasSession, sid⟩ := tracked.named n mail payload mpone old carries
    have step := serve_session tracked.consistent.invariant label.1 label.2 s
    rw [hasSession] at step
    obtain ⟨session', hasSession', _⟩ := step.kept
    exact ⟨s, session', hasSession', sid⟩
  · exact ⟨session.id, session, stored, sid⟩

/-- A request that does not misdirect keeps all tokens addressed. -/
theorem Tracked.addressed_step {st : SharedTable} (tracked : Tracked st) {label : ServeStep}
    (careful : ¬ Misdirects st label) : Addressed (worldOf (serveStep st label).maindb) := by
  intro n mail payload mpone has carries s session' hasSession' sid
  rcases serve_token_mail tracked.consistent.invariant label.1 label.2 has carries with old | ⟨data, address, session,
    _, _, _, isRequest, logged, written, sent, stored, medium, addr, sentSid⟩
  · obtain ⟨named, session, hasSession, namedSid⟩ := tracked.named n mail payload mpone old carries
    obtain rfl : s = named := toString_injective (sid.symm.trans namedSid)
    have step := serve_session tracked.consistent.invariant label.1 label.2 s
    rw [hasSession] at step
    obtain ⟨kept, hasKept, sameMedium, sameAddress, _⟩ := step.kept
    obtain rfl : session' = kept := Option.some.inj (hasSession'.symm.trans hasKept)
    rw [sameMedium, sameAddress]
    exact tracked.addressed n mail payload mpone old carries s session hasSession sid
  · obtain rfl : s = session.id := toString_injective (sid.symm.trans sentSid)
    obtain rfl : session' = session := Option.some.inj (hasSession'.symm.trans stored)
    obtain ⟨request, env⟩ := label
    obtain rfl : request = .requestToken data := isRequest
    have right := (sent.misdirected_iff tracked.consistent.invariant logged written).not.mp careful
    rw [not_not] at right
    rw [medium, addr]
    exact ⟨right.1.symm, right.2.symm⟩

/-- A request that misdirects leaves a token on its way to the wrong address. -/
theorem Tracked.misdirected {st : SharedTable} (tracked : Tracked st) {label : ServeStep}
    (misdirects : Misdirects st label) : ¬ Addressed (worldOf (serveStep st label).maindb) := by
  have invariant := tracked.consistent.invariant
  obtain ⟨request, env⟩ := label
  obtain ⟨logged, written, data, address, n, stored, isRequest, populated, has, same, other, sends⟩ := misdirects
  obtain rfl : request = .requestToken data := isRequest
  obtain ⟨prepared, counter, gives⟩ : Succeeds (requestTokenAction st env data) st.maincounter :=
    requestToken_total tracked.consistent populated
  obtain ⟨address', session, expired, opening, opened, found, tokenauth, populated', opens, looked, outcome⟩ :=
    requestToken_gives invariant gives
  obtain rfl : address = address' := Except.ok.inj (populated.symm.trans populated')
  -- the session that is opened is the stored one with the request's key
  rcases opens.found_or_new with ⟨m, found', hasFound, sameFound, medium, addr, sameId, late⟩ | ⟨_, _, absent⟩
  swap
  · exact (absent n stored has same).elim
  have unique : m = n := (invariant .validationSession).unique (List.mem_singleton_self _) hasFound has
    (sameFound.trans same.symm)
  subst unique
  cases hasFound.symm.trans has
  have willSend : found = false ∨ expired = true ∨ tokenauth.sendAttemptNumber < data.reqtok.sendAttempt := by
    rcases sends with expires | higher
    · exact .inr (.inl (late.mpr expires))
    · rcases (attempt_iff_of_lookedUp invariant looked _).mpr (by rwa [sameId]) with isNew | above
      · exact .inl isNew
      · exact .inr (.inr above)
  rw [if_pos willSend] at outcome
  obtain ⟨id, taken, transaction, takes, rfl, free, commits, built⟩ := outcome
  have read : Gives ((MasterRequest.requestToken data).read st env) st.maincounter
      (prepared.map MasterRequest.requestToken) (taken + 1) := by
    simp only [MasterRequest.read, gives_bind, gives_pure]
    exact ⟨prepared, _, gives, rfl, rfl⟩
  obtain ⟨_, represents⟩ := serve_of_gives invariant read commits built
  rw [logged, written, Bool.and_self, if_pos rfl] at represents
  intro addressed
  have after : worldOf (serveStep st (.requestToken data, env)).maindb = _ := represents.world_eq.symm
  rw [after, List.foldl_append, List.foldl_cons, List.foldl_cons, List.foldl_nil] at addressed
  have right := addressed (taken + 1) _ _ _
    (by rw [apply_add_self]; exact Function.update_self ..) ⟨rfl, rfl, rfl⟩ session.id session (by
      rw [TableOp.apply_of_ne _ _ (by simp [TableOp.name]), TableOp.apply_of_ne _ _ (by simp [TableOp.name])]
      exact opens.stored invariant) rfl
  exact other ⟨medium.symm.trans right.1.symm, addr.symm.trans right.2.symm⟩

theorem EmptyStore.tracked {st : SharedTable} (empty : EmptyStore st) : Tracked st := by
  refine ⟨empty.consistent, ?_, ?_⟩
  · intro n mail payload mpone has
    exact (empty.nothing .parAvion n mail has).elim
  · intro n mail payload mpone has
    exact (empty.nothing .parAvion n mail has).elim

/-- In every run of requests on an empty store, every token on its way goes to the address of the session
that it validates, exactly if no request is for a token of a session with another medium or address. -/
theorem tokens_addressed_iff {start : SharedTable} (empty : EmptyStore start) (labels : List ServeStep) :
    (∀ i, Addressed (worldOf (Run.final serveStep start (labels.take i)).maindb)) ↔
      Run.Guarded serveStep (fun st label => ¬ Misdirects st label) start labels := by
  refine @Run.weak_iff_guarded _ _ serveStep (fun st => Addressed (worldOf st.maindb)) Tracked _
    (fun _ tracked => tracked.addressed) (fun st label tracked => ?_) (fun st label tracked careful => ?_) start
    empty.tracked labels
  · exact ⟨fun addressed misdirects => tracked.misdirected misdirects addressed, tracked.addressed_step⟩
  · exact ⟨tracked.consistent.serve label.1 label.2, tracked.named_step label, tracked.addressed_step careful⟩

/-- The address and the secret of the second request join to the key of the first one's session. -/
def sharedKey : List ServeStep :=
  [(tokenRequest "a@x.com" "q:r" 1, { currtime := 1000000, commit := { now := 1000000 } }),
    (tokenRequest "a@x.com:q" "r" 2, { currtime := 1000001, commit := { now := 1000001 } })]

/-- The message that the second request leaves. -/
def strayMail : ParAvionT where
  id := 5
  payload := some
    { id := 5
      medium := ascii "email"
      address := ascii "a@x.com:q"
      actkey := .aAuthToken
      retry := 2
      mpone := some { sid := ascii "2", token := ascii "111111" } }

/-- The session of both requests. -/
def sharedSession : ValidationSessionT where
  id := 2
  medium := ascii "email"
  address := ascii "a@x.com"
  clientSecret := ascii "q:r"
  mtime := 1000000

/-- The token of the session for `a@x.com` is sent to `a@x.com:q`. -/
theorem sharedKey_misdirects : EmptyStore emptyMaster ∧
    ¬ ∀ i, Addressed (worldOf (Run.final serveStep emptyMaster (sharedKey.take i)).maindb) := by
  refine ⟨rfl, fun addressed => ?_⟩
  have mail : worldOf (Run.final serveStep emptyMaster (sharedKey.take 2)).maindb .parAvion 5 = some strayMail := by
    decide +kernel
  have session : worldOf (Run.final serveStep emptyMaster (sharedKey.take 2)).maindb .validationSession 2 =
      some sharedSession := by decide +kernel
  have right := (addressed 2 5 strayMail _ _ mail ⟨rfl, rfl, rfl⟩ 2 _ session (by decide)).2
  revert right
  decide

theorem tokens_addressed_iff_sharedKey :
    (∀ i, Addressed (worldOf (Run.final serveStep emptyMaster (sharedKey.take i)).maindb)) ↔
      Run.Guarded serveStep (fun st label => ¬ Misdirects st label) emptyMaster sharedKey :=
  tokens_addressed_iff emptyStore_emptyMaster sharedKey

end Identt.Hrpc
