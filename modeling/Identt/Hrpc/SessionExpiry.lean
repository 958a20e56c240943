import Identt.Hrpc.Submissions
import Identt.Hrpc.TokenAddress

/-! # When a session counts as expired

Five actions compare the time with a session's `mtime`, each with a test of its own. Requesting and
submitting a token subtract the two; the three actions that use a session add the lifetime, and ask
the question the other way round. Times are unsigned and of 64 bits, so differences and sums wrap.
-/

namespace Identt.Hrpc

open Store Query ReadM ValidateService ThreePidService BlobDataService

/-- The request is answered with an error of this code. -/
def Fails (st : SharedTable) (request : MasterRequest) (env : ActionEnv) (ecode : ℕ) : Prop :=
  ∃ msg, (serve st request env).1 = .error (.sydent msg ecode)

/-- A request for what a session validated, or to use it. A binding names the user that it needs. -/
inductive UsesSession (subtok : SubmitTokenT) : MasterRequest → Prop
  | getValidated3pid (data : GetValidated3pidDataT) (given : data.subtok = subtok) :
      UsesSession subtok (.getValidated3pid data)
  | bind3pid (data : Bind3pidDataT) (given : data.subtok = subtok) (user : subtok.mxid ≠ []) :
      UsesSession subtok (.bind3pid data)
  | getAccessKey (data : GetAccessDataT) (given : data.subtok = subtok) : UsesSession subtok (.getAccessKey data)

/-- The caller names a stored session and knows its secret. -/
structure Presents (world : World) (subtok : SubmitTokenT) (sid : ℕ) (session : ValidationSessionT) : Prop where
  parsed : stoul subtok.sid = .ok sid
  has : world .validationSession sid = some session
  secret : session.clientSecret = subtok.clientSecret

/-- And also the token that was sent for it. -/
structure PresentsToken (world : World) (subtok : SubmitTokenT) (sid : ℕ) (session : ValidationSessionT) : Prop
    extends Presents world subtok sid session where
  token : ∃ n tokenauth, world .tokenAuth n = some tokenauth ∧ tokenauth.validationSession = sid ∧
    tokenauth.token = subtok.token

/-- A use of the session is refused as a submission of its token is: as expired exactly if that is refused
as expired, and otherwise because the session is not validated. -/
structure RefusedAlike (st : SharedTable) (env : ActionEnv) (request : MasterRequest) (submission : SubmitTokenDataT) :
    Prop where
  expired : Fails st request env mSessionExpired ↔ Fails st (.submitToken submission) env mSessionExpired
  otherwise : ¬ Fails st (.submitToken submission) env mSessionExpired → Fails st request env mSessionNotValidated

/-- A request for a token that has the session's key. -/
def RequestsFor (data : RequestTokenDataT) (session : ValidationSessionT) : Prop :=
  ∃ address, populateAddress data.reqtok data.medium = .ok address ∧
    sessionKey session.medium session.address session.clientSecret =
      sessionKey data.medium address data.reqtok.clientSecret

/-- The transaction that the request prepares opens the session again: it writes the session's time anew,
and a token made at this time. -/
def Renews (st : SharedTable) (env : ActionEnv) (data : RequestTokenDataT) (sid : ℕ) (session : ValidationSessionT) :
    Prop :=
  ∃ prepared counter transaction, Gives (requestTokenAction st env data) st.maincounter prepared counter ∧
    prepared.trans = some transaction ∧ session.mtime ≠ env.currtime ∧
    worldOf (applyItems st.maindb transaction.item) .validationSession sid =
      some { session with mtime := env.currtime } ∧
    ∃ n tokenauth, worldOf (applyItems st.maindb transaction.item) .tokenAuth n = some tokenauth ∧
      tokenauth.validationSession = sid ∧ tokenauth.token = makeToken env.currtime

/-- The lifetime of the session has passed, in whole numbers. -/
def Elapsed (session : ValidationSessionT) (now : UInt64) : Prop :=
  session.mtime.toNat + sessionValidLifetime.toNat < now.toNat

section Times

variable {now mtime : UInt64}

theorem sessionValidLifetime_toNat : sessionValidLifetime.toNat = 259200000 := rfl

/-- What the difference of two times says, whichever comes first. -/
theorem late_iff : sessionValidLifetime < now - mtime ↔
    mtime.toNat + sessionValidLifetime.toNat < now.toNat ∨
      now.toNat < mtime.toNat ∧ mtime.toNat + sessionValidLifetime.toNat < now.toNat + 2 ^ 64 := by
  have nowBound := now.toNat_lt
  have mtimeBound := mtime.toNat_lt
  rw [UInt64.lt_iff_toNat_lt, UInt64.toNat_sub, sessionValidLifetime_toNat]
  omega

/-- What the sum says. -/
theorem lt_lifetime_add_iff (order : mtime ≤ now) : now < sessionValidLifetime + mtime ↔
    now.toNat < mtime.toNat + sessionValidLifetime.toNat ∧ mtime.toNat + sessionValidLifetime.toNat < 2 ^ 64 := by
  have nowBound := now.toNat_lt
  rw [UInt64.le_iff_toNat_le] at order
  rw [UInt64.lt_iff_toNat_lt, UInt64.toNat_add, sessionValidLifetime_toNat]
  omega

end Times

section Refusals

variable {st : SharedTable} (env : ActionEnv) {sid : ℕ} {session : ValidationSessionT} {subtok : SubmitTokenT}

theorem serve_of_throws {env : ActionEnv} {request : MasterRequest} {e : Exn} (throws : Throws (request.read st env) st.maincounter e) :
    (serve st request env).1 = .error e := by
  rw [serve, runAction]
  cases ran : (request.read st env).run st.maincounter with
  | mk result counter =>
    rw [Throws, ran] at throws
    rw [show result = .error e from throws]

/-- What is thrown at the user of a session that is not validated. -/
def unusable (session : ValidationSessionT) : Exn :=
  if env.currtime < sessionValidLifetime + session.mtime then
    .sydent "This validation session has expired: call requestToken again" mSessionExpired
  else .sydent "This validation session has not yet been completed" mSessionNotValidated

theorem Presents.validatedSession (invariant : TableInvariant st.maindb)
    (presents : Presents (worldOf st.maindb) subtok sid session) (fresh : session.validated = 0) :
    validatedSession st env sid subtok.clientSecret = .error (unusable env session) := by
  have positive : sid ≠ 0 := (invariant .validationSession).ne_zero presents.has
  have read : validationSessionTable.getOne st.maindb { id := sid } .kValidationSession = .ok (true, session) ↔
      worldOf st.maindb .validationSession sid = some session :=
    (invariant .validationSession).getOne_id_iff positive
  rw [ThreePidService.validatedSession, read.mpr presents.has]
  simp only [Bind.bind, Except.bind, require, presents.secret, and_self, if_true, fresh, unusable]
  split <;> rfl

/-- Whoever uses a session that is not validated is told so, or that it expired. -/
theorem UsesSession.refused (invariant : TableInvariant st.maindb) {request : MasterRequest}
    (uses : UsesSession subtok request) (presents : Presents (worldOf st.maindb) subtok sid session)
    (fresh : session.validated = 0) (given : subtok.clientSecret ≠ []) :
    (serve st request env).1 = .error (unusable env session) := by
  have positive : sid ≠ 0 := (invariant .validationSession).ne_zero presents.has
  have refused := presents.validatedSession env invariant fresh
  have checked : checkSession st env subtok = .error (unusable env session) := by
    rw [checkSession, presents.parsed]
    simp only [Bind.bind, Except.bind, require, positive, given, ne_eq, not_false_eq_true, if_true, refused]
  apply serve_of_throws
  cases uses with
  | getValidated3pid data same =>
    subst same
    exact (throws_lift_bind checked).bind
  | bind3pid data same user =>
    subst same
    have bindingChecked : checkBinding st env data.subtok = .error (unusable env session) := by
      rw [checkBinding, presents.parsed]
      simp only [Bind.bind, Except.bind, require, positive, given, user, ne_eq, not_false_eq_true, if_true, refused]
    exact (throws_lift_bind bindingChecked).bind
  | getAccessKey data same =>
    subst same
    exact (throws_lift_bind checked).bind

/-- Without a secret the request is refused before the session is looked at. -/
theorem UsesSession.refused_of_noSecret (invariant : TableInvariant st.maindb) {request : MasterRequest}
    (uses : UsesSession subtok request) (presents : Presents (worldOf st.maindb) subtok sid session)
    (missing : subtok.clientSecret = []) :
    (serve st request env).1 = .error (.sydent "client_secret value required" mMissingParams) := by
  have positive : sid ≠ 0 := (invariant .validationSession).ne_zero presents.has
  apply serve_of_throws
  cases uses with
  | getValidated3pid data same | getAccessKey data same =>
    subst same
    refine (throws_lift_bind ?_).bind
    rw [checkSession, presents.parsed]
    simp [Bind.bind, Except.bind, require, positive, missing]
  | bind3pid data same user =>
    subst same
    refine (throws_lift_bind ?_).bind
    rw [checkBinding, presents.parsed]
    simp [Bind.bind, Except.bind, require, positive, missing]

theorem UsesSession.expired_iff (invariant : TableInvariant st.maindb) {request : MasterRequest}
    (uses : UsesSession subtok request) (presents : Presents (worldOf st.maindb) subtok sid session)
    (fresh : session.validated = 0) (given : subtok.clientSecret ≠ []) :
    (Fails st request env mSessionExpired ↔ env.currtime < sessionValidLifetime + session.mtime) ∧
    (Fails st request env mSessionNotValidated ↔ ¬ env.currtime < sessionValidLifetime + session.mtime) := by
  rw [Fails, Fails, uses.refused env invariant presents fresh given, unusable]
  split
  · next early => simp [early, mSessionExpired, mSessionNotValidated]
  · next past => simp [past, mSessionExpired, mSessionNotValidated]

/-- A submission of the right token is refused as expired by the wrapped difference of the times alone. -/
theorem PresentsToken.expired_iff (invariant : TableInvariant st.maindb) {data : SubmitTokenDataT}
    (presents : PresentsToken (worldOf st.maindb) data.subtok sid session) :
    Fails st (.submitToken data) env mSessionExpired ↔ sessionValidLifetime < env.currtime - session.mtime := by
  constructor
  · rintro ⟨msg, answered⟩
    by_contra live
    have submitted : Submitted (worldOf st.maindb) env.currtime data.subtok sid session :=
      ⟨presents.parsed, presents.token, presents.has, presents.secret, live⟩
    by_cases fresh : session.validated = 0
    · rw [serve_submitToken_first invariant submitted fresh] at answered
      -- the writes can fail, but that is not the caller's fault
      split at answered
      · split at answered <;> cases answered
      · cases answered
    · rw [serve_submitToken_again invariant submitted fresh] at answered
      cases answered
  · intro late
    obtain ⟨n, tokenauth, hasToken, named, right⟩ := presents.token
    have findsToken : tokenAuthTable.getOne st.maindb { validationSession := sid } .uTokenAuthValidationSession =
        .ok (true, tokenauth) :=
      (invariant .tokenAuth).getOne_of_key (List.mem_singleton_self _) hasToken (tokenKey_inj.mpr named)
    have positive : sid ≠ 0 := (invariant .validationSession).ne_zero presents.has
    have findsSession : validationSessionTable.getOne st.maindb { id := sid } .kValidationSession = .ok (true, session) ↔
        worldOf st.maindb .validationSession sid = some session :=
      (invariant .validationSession).getOne_id_iff positive
    have refused : submittedSession st env data.subtok =
        .error (.sydent "This validation session has expired" mSessionExpired) := by
      rw [submittedSession, presents.parsed]
      simp only [Bind.bind, Except.bind, findsToken, require, right, if_true, named, findsSession.mpr presents.has,
        presents.secret, late, not_true_eq_false, if_false]
    exact ⟨_, serve_of_throws (throws_lift_bind refused).bind⟩

end Refusals

section Requests

variable {st : SharedTable} {env : ActionEnv} {sid : ℕ} {session : ValidationSessionT} {data : RequestTokenDataT}

/-- What is opened for a request with this session's key: the session, as it is or with its time written anew. -/
theorem Opened.of_key {world : World} {db : DB} (represents : RepresentsAll db world) {probe opened : ValidationSessionT}
    {now : UInt64} {counter counter' : ℕ} {expired : Bool} {ops : List TableOp}
    (opens : Opened world now counter probe opened expired ops counter')
    (has : world .validationSession sid = some session)
    (same : session.getKey .uValidationSessionMediumAddressClientSecret false =
      probe.getKey .uValidationSessionMediumAddressClientSecret false) :
    (¬ sessionValidLifetime < now - session.mtime ∧ opened = session ∧ expired = false ∧ ops = []) ∨
    (sessionValidLifetime < now - session.mtime ∧ opened = { session with mtime := now } ∧ expired = true ∧
      ops = [.add .validationSession { session with mtime := now }]) := by
  have unique {n : ℕ} {stored : ValidationSessionT} (hasStored : world .validationSession n = some stored)
      (sameStored : stored.getKey .uValidationSessionMediumAddressClientSecret false =
        probe.getKey .uValidationSessionMediumAddressClientSecret false) : stored = session := by
    obtain rfl : n = sid := (represents .validationSession).unique (List.mem_singleton_self _) hasStored has
      (sameStored.trans same.symm)
    exact Option.some.inj (hasStored.symm.trans has)
  cases opens with
  | kept n stored hasStored sameStored live =>
    obtain rfl := unique hasStored sameStored
    exact .inl ⟨live, rfl, rfl, rfl⟩
  | reopened n stored hasStored sameStored late =>
    obtain rfl := unique hasStored sameStored
    exact .inr ⟨late, rfl, rfl, rfl⟩
  | created absent => exact (absent sid session has same).elim

/-- When a request opens its session again. -/
theorem RequestsFor.renews_iff (consistent : Consistent st) (requests : RequestsFor data session)
    (has : worldOf st.maindb .validationSession sid = some session) :
    Renews st env data sid session ↔ sessionValidLifetime < env.currtime - session.mtime := by
  have invariant := consistent.invariant
  obtain ⟨address, populated, same⟩ := requests
  have sessionId : session.id = sid := (invariant .validationSession).id_eq sid session has
  have total : Succeeds (requestTokenAction st env data) st.maincounter := requestToken_total consistent populated
  obtain ⟨prepared, counter, gives⟩ := total
  obtain ⟨address', opened, expired, opening, taken, found, tokenauth, populated', opens, looked, outcome⟩ :=
    requestToken_gives invariant gives
  obtain rfl : address = address' := Except.ok.inj (populated.symm.trans populated')
  rcases opens.of_key invariant has same with ⟨live, rfl, rfl, rfl⟩ | ⟨late, rfl, rfl, rfl⟩
  · refine iff_of_false ?_ live
    rintro ⟨prepared', counter', transaction, gives', commits, differs, stored, _⟩
    cases gives.symm.trans gives'
    split at outcome
    · obtain ⟨id, taken, transaction', _, _, _, commits', built⟩ := outcome
      cases commits.symm.trans commits'
      rw [← (built.applied invariant).world_eq, foldl_apply_of_notMem (by simp [TableOp.name]), has] at stored
      exact differs (congrArg ValidationSessionT.mtime (Option.some.inj stored))
    · cases commits.symm.trans outcome
  · refine iff_of_true ?_ late
    rw [if_pos (.inr (.inl rfl))] at outcome
    obtain ⟨id, taken, transaction, _, _, _, commits, built⟩ := outcome
    have after := (built.applied invariant).world_eq
    rw [List.singleton_append, List.foldl_cons, List.foldl_cons] at after
    refine ⟨prepared, counter, transaction, gives, commits, ?_, ?_, ?_⟩
    · intro equal
      rw [equal, UInt64.sub_self] at late
      exact absurd late (by decide)
    · rw [← after, foldl_apply_of_notMem (by simp [TableOp.name]), TableOp.apply_of_ne _ _ (by simp [TableOp.name]),
        apply_add_self, ← sessionId]
      exact Function.update_self ..
    · rw [← after, foldl_apply_of_notMem (by simp [TableOp.name]), apply_add_self]
      refine ⟨id, _, Function.update_self .., ?_, by simp [nextToken]⟩
      cases looked with
      | found n _ hasToken sameToken => exact (tokenKey_inj.mp sameToken).trans sessionId
      | absent => exact sessionId

end Requests

/-- For a stored session that is not validated, whoever presents its number and secret, and a time that is
not before its own: the three uses of the session are refused as a submission of its token is, exactly if
the session has a secret at all, and its lifetime ends just now or with a sum that wraps. -/
theorem refusedAlike_iff {st : SharedTable} (invariant : TableInvariant st.maindb) {env : ActionEnv} {sid : ℕ}
    {session : ValidationSessionT} (fresh : session.validated = 0) (order : session.mtime ≤ env.currtime)
    {subtok : SubmitTokenT} (presents : Presents (worldOf st.maindb) subtok sid session)
    {submission : SubmitTokenDataT}
    (presentsToken : PresentsToken (worldOf st.maindb) submission.subtok sid session) {request : MasterRequest}
    (uses : UsesSession subtok request) :
    RefusedAlike st env request submission ↔ session.clientSecret ≠ [] ∧
      (env.currtime.toNat = session.mtime.toNat + sessionValidLifetime.toNat ∨
        2 ^ 64 ≤ session.mtime.toNat + sessionValidLifetime.toNat) := by
  have submitted := presentsToken.expired_iff env invariant
  have nowBound := env.currtime.toNat_lt
  have whole := UInt64.le_iff_toNat_le.mp order
  rw [late_iff] at submitted
  by_cases given : subtok.clientSecret = []
  · have answered := uses.refused_of_noSecret env invariant presents given
    refine iff_of_false ?_ ?_
    · intro alike
      by_cases expired : Fails st (.submitToken submission) env mSessionExpired
      · obtain ⟨msg, failed⟩ := alike.expired.mpr expired
        cases answered.symm.trans failed
      · obtain ⟨msg, failed⟩ := alike.otherwise expired
        cases answered.symm.trans failed
    · rintro ⟨secret, _⟩
      exact secret (presents.secret.trans given)
  · obtain ⟨refusedExpired, refusedFresh⟩ := uses.expired_iff env invariant presents fresh given
    rw [lt_lifetime_add_iff order] at refusedExpired refusedFresh
    have secret : session.clientSecret ≠ [] := by rwa [presents.secret]
    constructor
    · rintro ⟨expired, _⟩
      rw [refusedExpired, submitted] at expired
      exact ⟨secret, by omega⟩
    · rintro ⟨_, boundary⟩
      refine ⟨?_, ?_⟩
      · rw [refusedExpired, submitted]
        omega
      · rw [refusedFresh, submitted]
        omega

/-- A master that opened one session, at the time 1000000. -/
def openedMaster : SharedTable :=
  Run.final serveStep emptyMaster
    [(tokenRequest "a@x.com" "q" 1, { currtime := 1000000, commit := { now := 1000000 } })]

def openedSession : ValidationSessionT where
  id := 2
  medium := ascii "email"
  address := ascii "a@x.com"
  clientSecret := ascii "q"
  mtime := 1000000

def openedToken : TokenAuthT where
  id := 3
  validationSession := 2
  token := ascii "111111"
  sendAttemptNumber := 1

/-- What the owner of that session presents. -/
def openedSubtok : SubmitTokenT where
  sid := ascii "2"
  clientSecret := ascii "q"
  token := ascii "111111"
  mxid := ascii "@a:x"

theorem consistent_openedMaster : Consistent openedMaster := emptyStore_emptyMaster.run_consistent _

theorem presentsToken_opened : PresentsToken (worldOf openedMaster.maindb) openedSubtok 2 openedSession where
  parsed := by decide
  has := by decide +kernel
  secret := rfl
  token := ⟨3, openedToken, by decide +kernel, rfl, rfl⟩

theorem refusedAlike_iff_opened :
    RefusedAlike openedMaster { currtime := 1000005, commit := { now := 1000005 } }
      (.bind3pid { subtok := openedSubtok }) { subtok := openedSubtok } ↔
    openedSession.clientSecret ≠ [] ∧
      ((1000005 : UInt64).toNat = openedSession.mtime.toNat + sessionValidLifetime.toNat ∨
        2 ^ 64 ≤ openedSession.mtime.toNat + sessionValidLifetime.toNat) :=
  refusedAlike_iff consistent_openedMaster.invariant rfl (by decide) presentsToken_opened.toPresents
    presentsToken_opened (.bind3pid _ rfl (by decide))

/-- A session that was just opened is called expired where it should be validated first, and three days later
the other way round. -/
theorem openedSession_refused :
    Fails openedMaster (.getValidated3pid { subtok := openedSubtok })
      { currtime := 1000005, commit := { now := 1000005 } } mSessionExpired ∧
    ¬ Fails openedMaster (.submitToken { subtok := openedSubtok })
      { currtime := 1000005, commit := { now := 1000005 } } mSessionExpired ∧
    Fails openedMaster (.getValidated3pid { subtok := openedSubtok })
      { currtime := 260200001, commit := { now := 260200001 } } mSessionNotValidated ∧
    Fails openedMaster (.submitToken { subtok := openedSubtok })
      { currtime := 260200001, commit := { now := 260200001 } } mSessionExpired := by
  have invariant := consistent_openedMaster.invariant
  have uses : UsesSession openedSubtok (.getValidated3pid { subtok := openedSubtok }) := .getValidated3pid _ rfl
  refine ⟨?_, ?_, ?_, ?_⟩
  · exact (uses.expired_iff _ invariant presentsToken_opened.toPresents rfl (by decide)).1.mpr (by decide)
  · rw [presentsToken_opened.expired_iff _ invariant]
    decide
  · exact (uses.expired_iff _ invariant presentsToken_opened.toPresents rfl (by decide)).2.mpr (by decide)
  · rw [presentsToken_opened.expired_iff _ invariant]
    decide

/-- For a stored session, a request for a token with its key, and a submission of its token: the request
opens the session again, and the submission is refused as expired, exactly if the lifetime has passed, for
just the times that are not before the session's, or so far before it that the wrapped difference is
within the lifetime. -/
theorem expiry_exact_iff {st : SharedTable} (consistent : Consistent st) {env : ActionEnv} {sid : ℕ}
    {session : ValidationSessionT} {data : RequestTokenDataT} (requests : RequestsFor data session)
    {submission : SubmitTokenDataT}
    (presents : PresentsToken (worldOf st.maindb) submission.subtok sid session) :
    ((Renews st env data sid session ↔ Elapsed session env.currtime) ∧
      (Fails st (.submitToken submission) env mSessionExpired ↔ Elapsed session env.currtime)) ↔
    (session.mtime ≤ env.currtime ∨
      env.currtime.toNat + 2 ^ 64 ≤ session.mtime.toNat + sessionValidLifetime.toNat) := by
  rw [requests.renews_iff consistent presents.has, presents.expired_iff env consistent.invariant, and_self, late_iff,
    Elapsed, UInt64.le_iff_toNat_le]
  omega

/-- Another request for the token of that session. -/
def openedAgain : RequestTokenDataT where
  medium := ascii "email"
  reqtok := { email := ascii "a@x.com", clientSecret := ascii "q" }

theorem requestsFor_opened : RequestsFor openedAgain openedSession := ⟨ascii "a@x.com", by decide, rfl⟩

theorem expiry_exact_iff_opened :
    ((Renews openedMaster { currtime := 1000005, commit := { now := 1000005 } } openedAgain 2 openedSession ↔
        Elapsed openedSession 1000005) ∧
      (Fails openedMaster (.submitToken { subtok := openedSubtok })
        { currtime := 1000005, commit := { now := 1000005 } } mSessionExpired ↔ Elapsed openedSession 1000005)) ↔
    (openedSession.mtime ≤ 1000005 ∨
      (1000005 : UInt64).toNat + 2 ^ 64 ≤ openedSession.mtime.toNat + sessionValidLifetime.toNat) :=
  expiry_exact_iff consistent_openedMaster requestsFor_opened presentsToken_opened

/-- Where the clock went back by a millisecond, the session is opened again, and its token refused as expired. -/
theorem openedSession_expired_early :
    ¬ Elapsed openedSession 999999 ∧
    Renews openedMaster { currtime := 999999, commit := { now := 999999 } } openedAgain 2 openedSession ∧
    Fails openedMaster (.submitToken { subtok := openedSubtok })
      { currtime := 999999, commit := { now := 999999 } } mSessionExpired := by
  refine ⟨?_, ?_, ?_⟩
  · rw [Elapsed]
    decide
  · rw [requestsFor_opened.renews_iff consistent_openedMaster presentsToken_opened.has]
    decide
  · rw [presentsToken_opened.expired_iff _ consistent_openedMaster.invariant]
    decide

end Identt.Hrpc
