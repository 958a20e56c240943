import Identt.Hrpc.Submissions
import Identt.Hrpc.TokenAddress

/-! # One token for a session, sent again for higher attempts

As long as no request finds its session expired, the token of a session stays, and every message that
carries it was asked for with a higher attempt than the one before. The stored token remembers the
highest attempt, and a request that does not exceed it does nothing.
-/

namespace Identt.Hrpc

open Store Query ReadM ValidateService

/-- If the request finds a session to reuse, the session has not expired. -/
def FindsLive (st : SharedTable) (label : ServeStep) : Prop :=
  ∀ data address, label.1 = .requestToken data → populateAddress data.reqtok data.medium = .ok address →
    ∀ n session, worldOf st.maindb .validationSession n = some session →
      sessionKey session.medium session.address session.clientSecret =
        sessionKey data.medium address data.reqtok.clientSecret →
      ¬ sessionValidLifetime < label.2.currtime - session.mtime

/-- The request adds a message with a token for the session. -/
def EmitsToken (sid : ℕ) (payload : Mail.MPayloadT) (st : SharedTable) (label : ServeStep) : Prop :=
  ∃ n mail mpone, worldOf st.maindb .parAvion n ≠ some mail ∧
    worldOf (serveStep st label).maindb .parAvion n = some mail ∧ CarriesToken mail payload mpone ∧
    mpone.sid = toString sid

/-- What the messages of a run carry for one session. -/
structure SentInOrder (start : SharedTable) (labels : List ServeStep) (sid : ℕ) : Prop where
  increasing : ∀ i j first second, Run.Occurs serveStep (EmitsToken sid first) start labels i →
    Run.Occurs serveStep (EmitsToken sid second) start labels j → i < j → first.retry < second.retry
  once : ∀ i first second, Run.Occurs serveStep (EmitsToken sid first) start labels i →
    Run.Occurs serveStep (EmitsToken sid second) start labels i → first = second
  single : ∀ session, worldOf (Run.final serveStep start labels).maindb .validationSession sid = some session →
    ∃! n, ∃ tokenauth, worldOf (Run.final serveStep start labels).maindb .tokenAuth n = some tokenauth ∧
      tokenauth.validationSession = sid
  same : ∀ i payload, Run.Occurs serveStep (EmitsToken sid payload) start labels i →
    ∃ n tokenauth, worldOf (Run.final serveStep start labels).maindb .tokenAuth n = some tokenauth ∧
      tokenauth.validationSession = sid ∧ payload.mpone.map Mail.MPOneT.token = some tokenauth.token

/-- A request whose attempt does not exceed the stored one of its session's token changes nothing, and answers with
the session's number and token. -/
def SilentBelow (st : SharedTable) : Prop :=
  ∀ data address env n session m tokenauth, populateAddress data.reqtok data.medium = .ok address →
    worldOf st.maindb .validationSession n = some session →
    sessionKey session.medium session.address session.clientSecret =
      sessionKey data.medium address data.reqtok.clientSecret →
    ¬ sessionValidLifetime < env.currtime - session.mtime →
    worldOf st.maindb .tokenAuth m = some tokenauth → tokenauth.validationSession = n →
    data.reqtok.sendAttempt ≤ tokenauth.sendAttemptNumber →
    ∃ reply, serve st (.requestToken data) env = (.ok (.requestToken reply), st) ∧ reply.ssid.success = true ∧
      reply.ssid.sid = toString n ∧ reply.token = tokenauth.token

/-- Such a request gets through without taking a number or preparing a transaction. -/
theorem requestToken_silent {st : SharedTable} (invariant : TableInvariant st.maindb) : SilentBelow st := by
  intro data address env n session m tokenauth populated has sameKey live hasToken named attempt
  have sessions : validationSessionTable.Represents st.maindb (worldOf st.maindb .validationSession) :=
    invariant .validationSession
  have tokens : tokenAuthTable.Represents st.maindb (worldOf st.maindb .tokenAuth) := invariant .tokenAuth
  have number : session.id = n := sessions.id_eq n session has
  have findsSession : validationSessionTable.getOne st.maindb
      { medium := data.medium, address := address, clientSecret := data.reqtok.clientSecret }
      .uValidationSessionMediumAddressClientSecret = .ok (true, session) :=
    sessions.getOne_of_key (List.mem_singleton_self _) has sameKey
  have findsToken : tokenAuthTable.getOne st.maindb { validationSession := session.id } .uTokenAuthValidationSession =
      .ok (true, tokenauth) :=
    tokens.getOne_of_key (List.mem_singleton_self _) hasToken (tokenKey_inj.mpr (named.trans number.symm))
  have opens : Gives (openSession st env
      { medium := data.medium, address := address, clientSecret := data.reqtok.clientSecret }) st.maincounter
      (session, false, {}) st.maincounter := by
    simp only [openSession, gives_bind, gives_lift]
    refine ⟨_, _, ⟨findsSession, rfl⟩, ?_⟩
    simp [live]
  have quiet : ¬ tokenauth.sendAttemptNumber < data.reqtok.sendAttempt := not_lt.mpr attempt
  have gives : Gives ((MasterRequest.requestToken data).read st env) st.maincounter
      ⟨none, fun _ => .ok (.requestToken (requestTokenReply data address session tokenauth))⟩ st.maincounter := by
    simp only [MasterRequest.read, requestTokenAction, gives_bind, gives_lift, gives_pure]
    refine ⟨⟨none, fun _ => .ok (requestTokenReply data address session tokenauth)⟩, _, ⟨address, _, ⟨populated, rfl⟩, _, _,
      opens, _, _, ⟨findsToken, rfl⟩, ?_⟩, rfl, rfl⟩
    simp [quiet]
  refine ⟨requestTokenReply data address session tokenauth, ?_, ?_, ?_, rfl⟩
  · rw [serve_eq_of_gives gives]
    rfl
  · rw [requestTokenReply]
    split <;> rfl
  · rw [requestTokenReply, ← number]
    split <;> rfl

/-- Nothing about the tokens changes. -/
structure Quiet (world world' : World) : Prop where
  tokens : world' .tokenAuth = world .tokenAuth
  sessions : ∀ s session, world' .validationSession s = some session → ∃ old, world .validationSession s = some old
  mails : ∀ n mail payload mpone, world' .parAvion n = some mail → CarriesToken mail payload mpone →
    world .parAvion n = some mail

/-- A token is sent for a session: the one that is stored for it, for a higher attempt than before, or its first one. -/
structure Sending (world world' : World) (sid : ℕ) (tokenauth : TokenAuthT) (payload : Mail.MPayloadT) : Prop where
  tokens : world' .tokenAuth = Function.update (world .tokenAuth) tokenauth.id (some tokenauth)
  named : tokenauth.validationSession = sid
  before : (∃ old, world .tokenAuth tokenauth.id = some old ∧ old.validationSession = sid ∧
      old.sendAttemptNumber < tokenauth.sendAttemptNumber ∧ old.token = tokenauth.token) ∨
    world .tokenAuth tokenauth.id = none ∧ ∀ n old, world .tokenAuth n = some old → old.validationSession ≠ sid
  sessions : ∀ s session, world' .validationSession s = some session → s = sid ∨
    ∃ old, world .validationSession s = some old
  mails : ∀ n mail sent mpone, world' .parAvion n = some mail → CarriesToken mail sent mpone →
    world .parAvion n = some mail ∨ sent = payload
  retry : payload.retry = tokenauth.sendAttemptNumber
  sent : ∃ mpone, payload.mpone = some mpone ∧ mpone.sid = toString sid ∧ mpone.token = tokenauth.token

section Step

variable {db : DB} {world : World} {now : UInt64} {counter counter' : ℕ} {probe session : ValidationSessionT}
  {expired : Bool} {ops : List TableOp}

/-- Opening a session leaves the others alone. -/
theorem Opened.other_session (opened : Opened world now counter probe session expired ops counter') {s : ℕ}
    (other : s ≠ session.id) :
    ops.foldl TableOp.apply world .validationSession s = world .validationSession s := by
  cases opened with
  | kept => rfl
  | reopened n old has same late =>
    rw [List.foldl_cons, List.foldl_nil, apply_add_self]
    exact Function.update_of_ne other ..
  | created absent free =>
    rw [List.foldl_cons, List.foldl_nil, apply_add_self]
    exact Function.update_of_ne other ..

/-- A session that is live is not reopened. -/
theorem Opened.not_expired (opened : Opened world now counter probe session expired ops counter')
    (live : ∀ n stored, world .validationSession n = some stored →
      sessionKey stored.medium stored.address stored.clientSecret =
        sessionKey probe.medium probe.address probe.clientSecret →
      ¬ sessionValidLifetime < now - stored.mtime) : expired = false := by
  cases opened with
  | kept => rfl
  | reopened n stored has same late => exact (live n stored has same late).elim
  | created => rfl

/-- What a request for a token that goes through does, if its session is live. -/
theorem Writes.sending (represents : RepresentsAll db world) {hostname : Bytes} {env : ActionEnv}
    {data : RequestTokenDataT} (writes : Writes world hostname env counter (.requestToken data) ops counter')
    (live : ∀ address, populateAddress data.reqtok data.medium = .ok address →
      ∀ n stored, world .validationSession n = some stored →
        sessionKey stored.medium stored.address stored.clientSecret =
          sessionKey data.medium address data.reqtok.clientSecret →
        ¬ sessionValidLifetime < env.currtime - stored.mtime) :
    ∃ sid tokenauth payload, Sending world (ops.foldl TableOp.apply world) sid tokenauth payload := by
  cases writes with
  | @requestToken _ address session expired found opening tokenauth opened id taken populated opens looked sends takes
      free =>
    obtain rfl := opens.not_expired (live address populated)
    rw [Bool.or_false]
    simp only [Bool.false_eq_true, false_or] at sends
    have untouched (name : TableName) (differ : name ≠ .validationSession) : name ∉ opening.map TableOp.name := by
      intro member
      obtain ⟨op, inOpening, rfl⟩ := List.mem_map.mp member
      exact differ (opens.names op inOpening)
    generalize isNext : nextToken data env.currtime (!found) id tokenauth = next
    have attempt : next.sendAttemptNumber = data.reqtok.sendAttempt := isNext ▸ rfl
    have number : next.id = id := isNext ▸ rfl
    have named : next.validationSession = session.id := by
      rw [← isNext]
      cases looked with
      | found n _ has same => exact tokenKey_inj.mp same
      | absent none => rfl
    refine ⟨session.id, next, ?payload, ?_, named, ?_, fun s stored has => ?_, fun n mail sent mpone has carries => ?_, ?_, ?_⟩
    case payload =>
      exact
        { id := taken + 1
          medium := data.medium
          address := address
          actkey := .aAuthToken
          retry := data.reqtok.sendAttempt
          mpone := some { sid := toString session.id, country := data.reqtok.country, token := next.token } }
    · rw [List.foldl_append, List.foldl_cons, List.foldl_cons, List.foldl_nil,
        TableOp.apply_of_ne _ _ (by simp [TableOp.name]), apply_add_self, foldl_apply_of_notMem (untouched _ (by decide))]
      rfl
    · obtain ⟨isId, -⟩ := gives_takeId.mp takes
      cases looked with
      | found n _ has same =>
        left
        have sameId : next.id = n := number.trans (isId.trans ((represents .tokenAuth).id_eq n tokenauth has))
        refine ⟨tokenauth, sameId ▸ has, tokenKey_inj.mp same, ?_, isNext ▸ rfl⟩
        rw [attempt]
        exact sends.resolve_left (by simp)
      | absent none =>
        right
        rw [number]
        exact ⟨free rfl, fun n old has isNamed => none n old has (tokenKey_inj.mpr isNamed)⟩
    · rw [List.foldl_append, foldl_apply_of_notMem (by simp [TableOp.name])] at has
      by_cases here : s = session.id
      · exact .inl here
      · rw [opens.other_session here] at has
        exact .inr ⟨stored, has⟩
    · rw [List.foldl_append, List.foldl_cons, List.foldl_cons, List.foldl_nil, apply_add_self, Function.update_apply] at has
      split at has
      · right
        obtain rfl := Option.some.inj has
        exact (Option.some.inj carries.payload_eq).symm
      · left
        rwa [TableOp.apply_of_ne _ _ (by simp [TableOp.name]), foldl_apply_of_notMem (untouched _ (by decide))] at has
    · exact attempt.symm
    · exact ⟨_, rfl, rfl, rfl⟩

end Step

/-- What serving a request does about the tokens, if it does not find its session expired. -/
theorem serve_tokens {st : SharedTable} (invariant : TableInvariant st.maindb) {label : ServeStep}
    (live : FindsLive st label) : Quiet (worldOf st.maindb) (worldOf (serveStep st label).maindb) ∨
      ∃ sid tokenauth payload,
        Sending (worldOf st.maindb) (worldOf (serveStep st label).maindb) sid tokenauth payload := by
  obtain ⟨request, env⟩ := label
  obtain ⟨_, same | ⟨ops, writes, logged, written, represents⟩⟩ := serve_cases invariant request env
  · left
    rw [serveStep, ← same.world_eq]
    exact ⟨rfl, fun s session has => ⟨session, has⟩, fun n mail payload mpone has _ => has⟩
  · rw [serveStep, ← represents.world_eq]
    by_cases isRequest : ∃ data, request = .requestToken data
    · obtain ⟨data, rfl⟩ := isRequest
      exact .inr (writes.sending invariant fun address populated => live data address rfl populated)
    · left
      have frame := Writes.frame .tokenAuth writes
      refine ⟨?_, fun s session has => ?_, fun n mail payload mpone has carries => ?_⟩
      · apply frame
        cases request with
        | requestToken data => exact (isRequest ⟨data, rfl⟩).elim
        | submitToken | getValidated3pid | bind3pid | storeInvite | pending | getAccessKey | setBlobData =>
          simp [MasterRequest.tables]
      · have step := writes.session_step invariant logged written s
        rw [has] at step
        generalize worldOf st.maindb .validationSession s = old at step
        cases step with
        | unchanged => exact ⟨session, rfl⟩
        | reopened | validated => exact ⟨_, rfl⟩
        | created => exact (isRequest ⟨_, rfl⟩).elim
      · rcases writes.token_mail invariant has carries with old | ⟨data, _, _, _, _, _, isToken, _⟩
        · exact old
        · exact (isRequest ⟨data, isToken⟩).elim

/-- What the proof carries along a run: every session has a token, which is the one in all messages for it and
remembers the highest of their attempts. -/
structure Remembers (start : SharedTable) (past : List ServeStep) (st : SharedTable) : Prop where
  consistent : Consistent st
  holders : ∀ sid session, worldOf st.maindb .validationSession sid = some session →
    ∃ n tokenauth, worldOf st.maindb .tokenAuth n = some tokenauth ∧ tokenauth.validationSession = sid
  highest : ∀ sid i payload, Run.Occurs serveStep (EmitsToken sid payload) start past i →
    ∃ n tokenauth, worldOf st.maindb .tokenAuth n = some tokenauth ∧ tokenauth.validationSession = sid ∧
      payload.retry ≤ tokenauth.sendAttemptNumber ∧ payload.mpone.map Mail.MPOneT.token = some tokenauth.token
  increasing : ∀ sid i j first second, Run.Occurs serveStep (EmitsToken sid first) start past i →
    Run.Occurs serveStep (EmitsToken sid second) start past j → i < j → first.retry < second.retry
  once : ∀ sid i first second, Run.Occurs serveStep (EmitsToken sid first) start past i →
    Run.Occurs serveStep (EmitsToken sid second) start past i → first = second

theorem EmptyStore.remembers {start : SharedTable} (empty : EmptyStore start) : Remembers start [] start :=
  ⟨empty.consistent, fun sid session has => (empty.nothing .validationSession sid session has).elim,
    fun _ _ _ occurs => (Nat.not_lt_zero _ occurs.lt).elim, fun _ _ _ _ _ occurs => (Nat.not_lt_zero _ occurs.lt).elim,
    fun _ _ _ _ occurs => (Nat.not_lt_zero _ occurs.lt).elim⟩

theorem Quiet.not_emits {st : SharedTable} {label : ServeStep}
    (quiet : Quiet (worldOf st.maindb) (worldOf (serveStep st label).maindb)) (sid : ℕ) (payload : Mail.MPayloadT) :
    ¬ EmitsToken sid payload st label := by
  rintro ⟨n, mail, mpone, isNew, has, carries, _⟩
  exact isNew (quiet.mails n mail payload mpone has carries)

/-- A request sends for one session, and one message. -/
theorem Sending.of_emits {st : SharedTable} {label : ServeStep} {sid sid' : ℕ} {tokenauth : TokenAuthT}
    {payload payload' : Mail.MPayloadT}
    (sending : Sending (worldOf st.maindb) (worldOf (serveStep st label).maindb) sid tokenauth payload)
    (emits : EmitsToken sid' payload' st label) : sid' = sid ∧ payload' = payload := by
  obtain ⟨n, mail, mpone, isNew, has, carries, isSid⟩ := emits
  obtain rfl := (sending.mails n mail payload' mpone has carries).resolve_left isNew
  obtain ⟨mpone', isMpone, isSid', _⟩ := sending.sent
  obtain rfl := Option.some.inj (carries.mpone_eq.symm.trans isMpone)
  exact ⟨toString_injective (isSid.symm.trans isSid'), rfl⟩

section Remember

variable {start st : SharedTable} {past : List ServeStep} (remembers : Remembers start past st)
include remembers

/-- A session's token is the only one. -/
theorem Remembers.token_unique {m n : ℕ} {left right : TokenAuthT} (hasLeft : worldOf st.maindb .tokenAuth m = some left)
    (hasRight : worldOf st.maindb .tokenAuth n = some right) (same : left.validationSession = right.validationSession) :
    m = n := by
  have represents : tokenAuthTable.Represents st.maindb (worldOf st.maindb .tokenAuth) :=
    remembers.consistent.invariant .tokenAuth
  exact represents.unique (List.mem_singleton_self _) hasLeft hasRight (tokenKey_inj.mpr same)

/-- When a token is sent, the others stay, and its own is the one that was there, for a higher attempt. -/
theorem Remembers.token_after {world' : World} {sid : ℕ} {tokenauth : TokenAuthT} {payload : Mail.MPayloadT}
    (sending : Sending (worldOf st.maindb) world' sid tokenauth payload) {n : ℕ} {old : TokenAuthT}
    (has : worldOf st.maindb .tokenAuth n = some old) :
    (old.validationSession ≠ sid ∧ world' .tokenAuth n = some old) ∨
      (old.validationSession = sid ∧ old.sendAttemptNumber < tokenauth.sendAttemptNumber ∧
        old.token = tokenauth.token) := by
  rcases sending.before with ⟨previous, hasPrevious, named, higher, sameToken⟩ | ⟨free, nobody⟩
  · by_cases own : old.validationSession = sid
    · obtain rfl := remembers.token_unique has hasPrevious (own.trans named.symm)
      obtain rfl := Option.some.inj (has.symm.trans hasPrevious)
      exact .inr ⟨own, higher, sameToken⟩
    · have elsewhere : n ≠ tokenauth.id := by
        rintro rfl
        obtain rfl := Option.some.inj (has.symm.trans hasPrevious)
        exact own named
      exact .inl ⟨own, by rw [sending.tokens, Function.update_of_ne elsewhere, has]⟩
  · have elsewhere : n ≠ tokenauth.id := by
      rintro rfl
      rw [free] at has
      contradiction
    exact .inl ⟨nobody n old has, by rw [sending.tokens, Function.update_of_ne elsewhere, has]⟩

/-- The token of a session, once there is one, stays, and its attempt does not go down. -/
theorem Remembers.token_kept {world' : World} {sid : ℕ} {tokenauth : TokenAuthT} {payload : Mail.MPayloadT}
    (sending : Sending (worldOf st.maindb) world' sid tokenauth payload) {n : ℕ} {old : TokenAuthT}
    (has : worldOf st.maindb .tokenAuth n = some old) : ∃ m new, world' .tokenAuth m = some new ∧
      new.validationSession = old.validationSession ∧ old.sendAttemptNumber ≤ new.sendAttemptNumber ∧
      new.token = old.token := by
  rcases remembers.token_after sending has with ⟨_, kept⟩ | ⟨own, higher, sameToken⟩
  · exact ⟨n, old, kept, rfl, le_rfl, rfl⟩
  · exact ⟨tokenauth.id, tokenauth, by rw [sending.tokens, Function.update_self], sending.named.trans own.symm, higher.le,
      sameToken.symm⟩

end Remember

theorem Remembers.step {start : SharedTable} {past : List ServeStep}
    (remembers : Remembers start past (Run.final serveStep start past)) {label : ServeStep}
    (live : FindsLive (Run.final serveStep start past) label) :
    Remembers start (past ++ [label]) (serveStep (Run.final serveStep start past) label) := by
  have consistent := remembers.consistent.serve label.1 label.2
  rcases serve_tokens remembers.consistent.invariant live with quiet | ⟨sid, tokenauth, payload, sending⟩
  · have earlier {sid i : ℕ} {payload : Mail.MPayloadT}
        (occurs : Run.Occurs serveStep (EmitsToken sid payload) start (past ++ [label]) i) :
        Run.Occurs serveStep (EmitsToken sid payload) start past i :=
      occurs.cases_append.resolve_right fun isLast => quiet.not_emits sid payload isLast.2
    refine ⟨consistent, fun sid session has => ?_, fun sid i payload occurs => ?_,
      fun sid i j first second atFirst atSecond => remembers.increasing sid i j first second (earlier atFirst)
        (earlier atSecond),
      fun sid i first second atFirst atSecond => remembers.once sid i first second (earlier atFirst) (earlier atSecond)⟩
    · obtain ⟨old, hasOld⟩ := quiet.sessions sid session has
      rw [quiet.tokens]
      exact remembers.holders sid old hasOld
    · rw [quiet.tokens]
      exact remembers.highest sid i payload (earlier occurs)
  · refine ⟨consistent, fun s session has => ?_, fun s i sent occurs => ?_,
      fun s i j first second atFirst atSecond before => ?_, fun s i first second atFirst atSecond => ?_⟩
    · rcases sending.sessions s session has with rfl | ⟨old, hasOld⟩
      · exact ⟨tokenauth.id, tokenauth, by rw [sending.tokens, Function.update_self], sending.named⟩
      · obtain ⟨n, token, hasToken, named⟩ := remembers.holders s old hasOld
        obtain ⟨m, new, hasNew, sameSession, _⟩ := remembers.token_kept sending hasToken
        exact ⟨m, new, hasNew, sameSession.trans named⟩
    · rcases occurs.cases_append with earlier | ⟨_, emits⟩
      · obtain ⟨n, token, hasToken, named, retry, carries⟩ := remembers.highest s i sent earlier
        obtain ⟨m, new, hasNew, sameSession, higher, sameToken⟩ := remembers.token_kept sending hasToken
        exact ⟨m, new, hasNew, sameSession.trans named, retry.trans higher, by rw [carries, sameToken]⟩
      · obtain ⟨rfl, rfl⟩ := sending.of_emits emits
        obtain ⟨mpone, isMpone, _, isToken⟩ := sending.sent
        refine ⟨tokenauth.id, tokenauth, by rw [sending.tokens, Function.update_self], sending.named, sending.retry.le, ?_⟩
        rw [isMpone, Option.map_some, isToken]
    · rcases atSecond.cases_append with second_earlier | ⟨rfl, emits⟩
      · have first_earlier := atFirst.cases_append.resolve_right fun isLast => by
          have bound := second_earlier.lt
          omega
        exact remembers.increasing s i j first second first_earlier second_earlier before
      · -- the message sent now is for a higher attempt than the stored one, which none before exceeds
        have first_earlier := atFirst.cases_append.resolve_right fun isLast => before.ne isLast.1
        obtain ⟨rfl, rfl⟩ := sending.of_emits emits
        obtain ⟨n, token, hasToken, named, retry, _⟩ := remembers.highest s i first first_earlier
        rcases remembers.token_after sending hasToken with ⟨other, _⟩ | ⟨_, higher, _⟩
        · exact (other named).elim
        · rw [sending.retry]
          exact lt_of_le_of_lt retry higher
    · rcases atFirst.cases_append with first_earlier | ⟨rfl, emits⟩
      · have second_earlier := atSecond.cases_append.resolve_right fun isLast => first_earlier.lt.ne isLast.1
        exact remembers.once s i first second first_earlier second_earlier
      · have emits' := (atSecond.cases_append.resolve_left fun second_earlier => second_earlier.lt.ne rfl).2
        exact (sending.of_emits emits).2.trans (sending.of_emits emits').2.symm

/-- In every run of requests on an empty store none of which finds its session expired, and for every session: the
messages with its token are for higher and higher attempts and carry the token that is stored for it, of which there
is just one; and a request whose attempt is not higher than the stored one changes nothing. -/
theorem tokens_in_order {start : SharedTable} (empty : EmptyStore start) {labels : List ServeStep}
    (live : Run.Guarded serveStep FindsLive start labels) :
    (∀ sid, SentInOrder start labels sid) ∧ SilentBelow (Run.final serveStep start labels) := by
  have remembers : Remembers start labels (Run.final serveStep start labels) :=
    @Run.history_of_guarded _ _ serveStep (Remembers start) FindsLive start empty.remembers
      (fun past label before here => before.step here) labels live
  refine ⟨fun sid => ⟨remembers.increasing sid, remembers.once sid, fun session has => ?_, fun i payload occurs => ?_⟩,
    requestToken_silent remembers.consistent.invariant⟩
  · obtain ⟨n, tokenauth, hasToken, named⟩ := remembers.holders sid session has
    refine ⟨n, ⟨tokenauth, hasToken, named⟩, ?_⟩
    rintro m ⟨other, hasOther, namedOther⟩
    exact remembers.token_unique hasOther hasToken (namedOther.trans named.symm)
  · obtain ⟨n, tokenauth, hasToken, named, _, carries⟩ := remembers.highest sid i payload occurs
    exact ⟨n, tokenauth, hasToken, named, carries⟩

/-- Two attempts for a token of one session. -/
def twoAttempts : List ServeStep :=
  [(tokenRequest "a@x.com" "s" 1, { currtime := 1000000, commit := { now := 1000000 } }),
    (tokenRequest "a@x.com" "s" 2, { currtime := 1000001, commit := { now := 1000001 } })]

/-- The session that the first attempt opens. -/
def attemptedSession : ValidationSessionT where
  id := 2
  medium := ascii "email"
  address := ascii "a@x.com"
  clientSecret := ascii "s"
  mtime := 1000000

theorem tokens_in_order_twoAttempts : (∀ sid, SentInOrder emptyMaster twoAttempts sid) ∧
    SilentBelow (Run.final serveStep emptyMaster twoAttempts) := by
  refine tokens_in_order emptyStore_emptyMaster (Run.guarded_cons.mpr ⟨?_, Run.guarded_cons.mpr ⟨?_, nofun⟩⟩)
  · intro data address _ _ n session has
    exact (emptyStore_emptyMaster.nothing .validationSession n session has).elim
  · rintro data address ⟨⟩ populated n session has sameKey
    have isAddress : populateAddress { email := ascii "a@x.com", clientSecret := ascii "s", sendAttempt := 2 }
        (ascii "email") = .ok (ascii "a@x.com") := by decide
    obtain rfl : address = ascii "a@x.com" := Except.ok.inj (populated.symm.trans isAddress)
    have stored : worldOf (Run.final serveStep emptyMaster (twoAttempts.take 1)).maindb .validationSession 2 =
        some attemptedSession := by decide +kernel
    have represents : validationSessionTable.Represents (Run.final serveStep emptyMaster (twoAttempts.take 1)).maindb _ :=
      (emptyStore_emptyMaster.run_consistent (twoAttempts.take 1)).invariant .validationSession
    have here : n = 2 := represents.unique (List.mem_singleton_self _) has stored sameKey
    subst here
    obtain rfl : session = attemptedSession := Option.some.inj (has.symm.trans stored)
    decide

end Identt.Hrpc
