import Identt.Hrpc.Submissions

/-! # Where bindings come from

A binding of an address to a user goes back to a call of `Bind3pidAction` for that user that knew the
number and the secret of a session for exactly that address, and before it to a submission of the
token that was stored for that session.
-/

namespace Identt.Hrpc

open Store Query ReadM ValidateService ThreePidService

/-- The label asks to bind the address of a validated session, with the session's secret, to a user. -/
def Binds (st : SharedTable) (label : ServeStep) (sid : ℕ) (medium address mxid : Bytes) : Prop :=
  ∃ data session, label.1 = .bind3pid data ∧ data.subtok.mxid = mxid ∧
    Usable (worldOf st.maindb) data.subtok sid session ∧ session.medium = medium ∧ session.address = address

/-- The run validated a session and later bound its address to the user. -/
def BoundBy (start : SharedTable) (labels : List ServeStep) (medium address mxid : Bytes) : Prop :=
  ∃ sid j k, j < k ∧ Run.Occurs serveStep (fun st label => Validates st label sid) start labels j ∧
    Run.Occurs serveStep (fun st label => Binds st label sid medium address mxid) start labels k

theorem BoundBy.append {start : SharedTable} {labels : List ServeStep} {medium address mxid : Bytes}
    (bound : BoundBy start labels medium address mxid) (more : List ServeStep) :
    BoundBy start (labels ++ more) medium address mxid := by
  obtain ⟨sid, j, k, before, submitted, binds⟩ := bound
  exact ⟨sid, j, k, before, submitted.append more, binds.append more⟩

/-- Only `email` and `msisdn` are served, so a medium never contains the separator of keys. -/
theorem plain_of_populated {reqtok : RequestTokenT} {medium address : Bytes}
    (populated : populateAddress reqtok medium = .ok address) : fmtSep ∉ medium := by
  rw [populateAddress] at populated
  split at populated
  · next email =>
    rw [email]
    decide
  · split at populated
    · next msisdn =>
      rw [msisdn]
      decide
    · contradiction

/-- Associations with plain media have the same key only if they are for the same address. -/
theorem localKey_inj {left right : LocalAssocT} (plainLeft : fmtSep ∉ left.medium)
    (plainRight : fmtSep ∉ right.medium)
    (same : localAssocTable.getKey left .uLocalAssocMediumAddress false =
      localAssocTable.getKey right .uLocalAssocMediumAddress false) :
    left.medium = right.medium ∧ left.address = right.address :=
  eq_of_sep_append plainLeft plainRight (List.append_cancel_left same)

section Step

variable {world : World} {hostname : Bytes} {env : ActionEnv} {counter counter' : ℕ} {request : MasterRequest}
  {ops : List TableOp}

/-- What a request does to the associations of this server. -/
theorem Writes.localAssoc_cases (writes : Writes world hostname env counter request ops counter') {n : ℕ}
    {assoc : LocalAssocT} (has : ops.foldl TableOp.apply world .localAssoc n = some assoc) :
    world .localAssoc n = some assoc ∨
    ∃ data sid session found localassoc id, request = .bind3pid data ∧ Usable world data.subtok sid session ∧
      LookedUp localAssocTable (world .localAssoc) .uLocalAssocMediumAddress
        { medium := session.medium, address := session.address } (found, localassoc) ∧
      assoc = boundLocal env data.subtok.mxid id localassoc := by
  rcases foldl_apply_cases has with old | ⟨added, _⟩
  · exact .inl old
  have touches := writes.name_mem added
  cases writes with
  | @bind3pid data sid session localFound globalFound localassoc globalassoc tokens tosign output localId
      localTaken globalId globalTaken usable localLooked =>
    exact .inr ⟨data, sid, session, localFound, localassoc, localId, rfl, usable, localLooked, by simpa using added⟩
  | requestToken | submitToken | storeInvite | pending | getAccessKey | setBlobData =>
    simp [MasterRequest.tables, TableOp.name] at touches

/-- What a request does to the published associations. -/
theorem Writes.globalAssoc_cases (writes : Writes world hostname env counter request ops counter') {n : ℕ}
    {assoc : GlobalAssocT} (has : ops.foldl TableOp.apply world .globalAssoc n = some assoc) :
    world .globalAssoc n = some assoc ∨
    ∃ data sid session, request = .bind3pid data ∧ Usable world data.subtok sid session ∧
      assoc.medium = session.medium ∧ assoc.address = session.address ∧ assoc.mxid = data.subtok.mxid := by
  rcases foldl_apply_cases has with old | ⟨added, _⟩
  · exact .inl old
  have touches := writes.name_mem added
  cases writes with
  | @bind3pid data sid session localFound globalFound localassoc globalassoc tokens tosign output localId
      localTaken globalId globalTaken usable =>
    obtain rfl : assoc = { boundGlobal env session data.subtok.mxid globalId globalassoc with sgAssoc := tosign } := by
      simpa using added
    exact .inr ⟨data, sid, session, rfl, usable, rfl, rfl, rfl⟩
  | requestToken | submitToken | storeInvite | pending | getAccessKey | setBlobData =>
    simp [MasterRequest.tables, TableOp.name] at touches

end Step

section Served

variable {st : SharedTable} (invariant : TableInvariant st.maindb) (label : ServeStep) {n : ℕ}
include invariant

/-- Whatever `populateAddress` makes sure of a medium holds of the media of all sessions. -/
theorem serve_sessionMedium {P : Bytes → Prop}
    (served : ∀ reqtok medium address, populateAddress reqtok medium = .ok address → P medium)
    (before : ∀ session, worldOf st.maindb .validationSession n = some session → P session.medium)
    {session : ValidationSessionT} (has : worldOf (serveStep st label).maindb .validationSession n = some session) :
    P session.medium := by
  have step := serve_session invariant label.1 label.2 n
  rw [show worldOf (serve st label.1 label.2).2.maindb .validationSession n = some session from has] at step
  generalize worldOf st.maindb .validationSession n = old, label.1 = request at step before
  cases step with
  | unchanged => exact before session rfl
  | @reopened _ old late => exact before old rfl
  | created isNext populated => exact served _ _ _ populated
  | @validated _ old submitted fresh => exact before old rfl

/-- Associations take their media from sessions. -/
theorem serve_assocMedium {P : Bytes → Prop}
    (sessions : ∀ n session, worldOf st.maindb .validationSession n = some session → P session.medium)
    (before : ∀ n assoc, worldOf st.maindb .localAssoc n = some assoc → P assoc.medium) {assoc : LocalAssocT}
    (has : worldOf (serveStep st label).maindb .localAssoc n = some assoc) : P assoc.medium := by
  obtain ⟨_, same | ⟨ops, writes, _, _, represents⟩⟩ := serve_cases invariant label.1 label.2
  · rw [serveStep, ← same.world_eq] at has
    exact before n assoc has
  · rw [serveStep, ← represents.world_eq] at has
    rcases writes.localAssoc_cases has with old | ⟨data, sid, session, found, localassoc, id, _, usable, looked, rfl⟩
    · exact before n assoc old
    · cases looked with
      | found m localassoc stored same => exact before m localassoc stored
      | absent none => exact sessions sid session usable.has

/-- A session that is validated was so before, or the request is the submission that validated it. -/
theorem serve_validated {session : ValidationSessionT}
    (has : worldOf (serveStep st label).maindb .validationSession n = some session) (validated : session.validated ≠ 0) :
    (∃ old, worldOf st.maindb .validationSession n = some old ∧ old.validated ≠ 0) ∨ Validates st label n := by
  have step := serve_session invariant label.1 label.2 n
  rw [show worldOf (serve st label.1 label.2).2.maindb .validationSession n = some session from has] at step
  generalize before : worldOf st.maindb .validationSession n = old, isRequest : label.1 = request at step
  cases step with
  | unchanged => exact .inl ⟨session, rfl, validated⟩
  | reopened => exact .inl ⟨_, rfl, validated⟩
  | created isNext populated => exact (validated rfl).elim
  | @validated data old submitted fresh logged written =>
    exact .inr ((validates_iff invariant).mpr ⟨data, old, isRequest, submitted, fun _ => ⟨logged, written⟩⟩)

end Served

/-- What is known of the tables at the end of a run. -/
structure Traced (start : SharedTable) (labels : List ServeStep) (st : SharedTable) : Prop where
  consistent : Consistent st
  plainSession : ∀ n session, worldOf st.maindb .validationSession n = some session → fmtSep ∉ session.medium
  plainAssoc : ∀ n assoc, worldOf st.maindb .localAssoc n = some assoc → fmtSep ∉ assoc.medium
  validated : ∀ n session, worldOf st.maindb .validationSession n = some session → session.validated ≠ 0 →
    ∃ j, Run.Occurs serveStep (fun st label => Validates st label n) start labels j
  localAssoc : ∀ n assoc, worldOf st.maindb .localAssoc n = some assoc →
    BoundBy start labels assoc.medium assoc.address assoc.mxid
  globalAssoc : ∀ n assoc, worldOf st.maindb .globalAssoc n = some assoc →
    BoundBy start labels assoc.medium assoc.address assoc.mxid

theorem EmptyStore.traced {start : SharedTable} (empty : EmptyStore start) : Traced start [] start := by
  exact ⟨empty.consistent, fun n session has => (empty.nothing .validationSession n session has).elim,
    fun n assoc has => (empty.nothing .localAssoc n assoc has).elim,
    fun n session has => (empty.nothing .validationSession n session has).elim,
    fun n assoc has => (empty.nothing .localAssoc n assoc has).elim,
    fun n assoc has => (empty.nothing .globalAssoc n assoc has).elim⟩

theorem Traced.step {start : SharedTable} {past : List ServeStep} {st : SharedTable} (traced : Traced start past st)
    (here : st = Run.final serveStep start past) (label : ServeStep) :
    Traced start (past ++ [label]) (serveStep st label) := by
  have invariant := traced.consistent.invariant
  -- a binding by this step names a session that was validated before
  have bound {sid : ℕ} {session : ValidationSessionT} {data : Bind3pidDataT} (isBind : label.1 = .bind3pid data)
      (usable : Usable (worldOf st.maindb) data.subtok sid session) :
      BoundBy start (past ++ [label]) session.medium session.address data.subtok.mxid := by
    obtain ⟨j, submitted⟩ := traced.validated sid session usable.has usable.validated
    refine ⟨sid, j, past.length, submitted.lt, submitted.append [label], Run.occurs_last.mpr ?_⟩
    rw [← here]
    exact ⟨data, session, isBind, rfl, usable, rfl, rfl⟩
  refine ⟨traced.consistent.serve label.1 label.2, fun n session has => ?_, fun n assoc has => ?_,
    fun n session has validated => ?_, fun n assoc has => ?_, fun n assoc has => ?_⟩
  · exact serve_sessionMedium (P := fun medium => fmtSep ∉ medium) invariant label
      (fun _ _ _ => plain_of_populated) (traced.plainSession n) has
  · exact serve_assocMedium (P := fun medium => fmtSep ∉ medium) invariant label traced.plainSession
      traced.plainAssoc has
  · rcases serve_validated invariant label has validated with ⟨old, hasOld, validatedOld⟩ | validates
    · obtain ⟨j, submitted⟩ := traced.validated n old hasOld validatedOld
      exact ⟨j, submitted.append [label]⟩
    · refine ⟨past.length, Run.occurs_last.mpr ?_⟩
      rwa [← here]
  · obtain ⟨_, same | ⟨ops, writes, _, _, represents⟩⟩ := serve_cases invariant label.1 label.2
    · rw [serveStep, ← same.world_eq] at has
      exact (traced.localAssoc n assoc has).append [label]
    · rw [serveStep, ← represents.world_eq] at has
      rcases writes.localAssoc_cases has with old | ⟨data, sid, session, found, localassoc, id, isBind, usable, looked,
        rfl⟩
      · exact (traced.localAssoc n assoc old).append [label]
      · cases looked with
        | found m localassoc stored same =>
          -- the association found is the one of the session's own address
          obtain ⟨medium, address⟩ := localKey_inj (traced.plainAssoc m localassoc stored)
            (traced.plainSession sid session usable.has) same
          change BoundBy start (past ++ [label]) localassoc.medium localassoc.address data.subtok.mxid
          rw [medium, address]
          exact bound isBind usable
        | absent none => exact bound isBind usable
  · obtain ⟨_, same | ⟨ops, writes, _, _, represents⟩⟩ := serve_cases invariant label.1 label.2
    · rw [serveStep, ← same.world_eq] at has
      exact (traced.globalAssoc n assoc has).append [label]
    · rw [serveStep, ← represents.world_eq] at has
      rcases writes.globalAssoc_cases has with old | ⟨data, sid, session, isBind, usable, medium, address, mxid⟩
      · exact (traced.globalAssoc n assoc old).append [label]
      · rw [medium, address, mxid]
        exact bound isBind usable

/-- In every run of requests on an empty store, every association, of this server or published, was bound by
a request that used a session for its address, after the token of that session had been submitted. -/
theorem bindings_traced {start : SharedTable} (empty : EmptyStore start) (labels : List ServeStep) :
    (∀ n assoc, worldOf (Run.final serveStep start labels).maindb .localAssoc n = some assoc →
      BoundBy start labels assoc.medium assoc.address assoc.mxid) ∧
    ∀ n assoc, worldOf (Run.final serveStep start labels).maindb .globalAssoc n = some assoc →
      BoundBy start labels assoc.medium assoc.address assoc.mxid := by
  have traced : Traced start labels (Run.final serveStep start labels) :=
    Run.history empty.traced (fun past label traced => traced.step rfl label) labels
  exact ⟨traced.localAssoc, traced.globalAssoc⟩

/-- A user validates an address and binds it. -/
def validateAndBind : List ServeStep :=
  [(tokenRequest "a@x.com" "q" 1, { currtime := 1000000, commit := { now := 1000000 } }),
    (.submitToken { subtok := { sid := ascii "2", clientSecret := ascii "q", token := ascii "111111" } },
      { currtime := 1000001, commit := { now := 1000001 } }),
    (.bind3pid { subtok := { sid := ascii "2", clientSecret := ascii "q", mxid := ascii "@a:x" } },
      { currtime := 1000002, commit := { now := 1000002 } })]

theorem bindings_traced_validateAndBind :
    BoundBy emptyMaster validateAndBind (ascii "email") (ascii "a@x.com") (ascii "@a:x") := by
  have stored : (worldOf (Run.final serveStep emptyMaster validateAndBind).maindb .localAssoc 5).map
      (fun assoc => (assoc.medium, assoc.address, assoc.mxid)) =
        some (ascii "email", ascii "a@x.com", ascii "@a:x") := by decide +kernel
  obtain ⟨assoc, has, fields⟩ := Option.map_eq_some_iff.mp stored
  simp only [Prod.mk.injEq] at fields
  have bound := (bindings_traced emptyStore_emptyMaster validateAndBind).1 5 assoc has
  rwa [fields.1, fields.2.1, fields.2.2] at bound

end Identt.Hrpc
