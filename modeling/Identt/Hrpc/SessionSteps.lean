import Identt.Hrpc.MasterRun

/-! # What a request does to a session

The fields by which a session is found never change. A request for a token can make a session, or
write the time of one that expired; a submission can validate one; nothing else touches a session.
-/

namespace Identt.Hrpc

open Store Query ReadM ValidateService

/-- What serving a request makes of the session stored under an identifier. -/
inductive SessionStep (world : World) (env : ActionEnv) (counter n : ℕ) :
    MasterRequest → Option ValidationSessionT → Option ValidationSessionT → Prop
  | unchanged (request : MasterRequest) (session : Option ValidationSessionT) :
      SessionStep world env counter n request session session
  | reopened {data : RequestTokenDataT} {session : ValidationSessionT}
      (late : sessionValidLifetime < env.currtime - session.mtime) :
      SessionStep world env counter n (.requestToken data) (some session)
        (some { session with mtime := env.currtime })
  | created {data : RequestTokenDataT} {address : Bytes} (isNext : n = counter + 1)
      (populated : populateAddress data.reqtok data.medium = .ok address) :
      SessionStep world env counter n (.requestToken data) none (some
        { id := n
          medium := data.medium
          address := address
          clientSecret := data.reqtok.clientSecret
          mtime := env.currtime })
  | validated {data : SubmitTokenDataT} {session : ValidationSessionT}
      (submitted : Submitted world env.currtime data.subtok n session) (fresh : session.validated = 0)
      (logged : env.commit.logPut = true) (written : env.commit.dataWrite = true) :
      SessionStep world env counter n (.submitToken data) (some session)
        (some { session with validated := 1, mtime := env.currtime })

theorem Opened.session_step {db : DB} {world : World} (represents : RepresentsAll db world) {env : ActionEnv}
    {counter counter' : ℕ} {data : RequestTokenDataT} {address : Bytes}
    (populated : populateAddress data.reqtok data.medium = .ok address) {session : ValidationSessionT}
    {expired : Bool} {ops : List TableOp}
    (opened : Opened world env.currtime counter
      { medium := data.medium, address := address, clientSecret := data.reqtok.clientSecret }
      session expired ops counter') (n : ℕ) :
    SessionStep world env counter n (.requestToken data) (world .validationSession n)
      (ops.foldl TableOp.apply world .validationSession n) := by
  cases opened with
  | kept => exact .unchanged _ _
  | reopened m session has same late =>
    have id_eq : session.id = m := (represents .validationSession).id_eq m session has
    rw [List.foldl_cons, List.foldl_nil, apply_add_self, Function.update_apply]
    split
    · next here =>
      obtain rfl : n = m := here.trans id_eq
      rw [has]
      exact .reopened late
    · exact .unchanged _ _
  | created absent free =>
    rw [List.foldl_cons, List.foldl_nil, apply_add_self, Function.update_apply]
    split
    · next here =>
      obtain rfl : n = counter + 1 := here
      rw [free]
      exact .created rfl populated
    · exact .unchanged _ _

theorem Writes.session_step {db : DB} {world : World} (represents : RepresentsAll db world) {hostname : Bytes}
    {env : ActionEnv} {counter counter' : ℕ} {request : MasterRequest} {ops : List TableOp}
    (writes : Writes world hostname env counter request ops counter') (logged : env.commit.logPut = true)
    (written : env.commit.dataWrite = true) (n : ℕ) :
    SessionStep world env counter n request (world .validationSession n)
      (ops.foldl TableOp.apply world .validationSession n) := by
  have frame := fun other => congrFun (Writes.frame .validationSession writes other) n
  cases writes with
  | requestToken populated opens =>
    rw [List.foldl_append, foldl_apply_of_notMem (by simp [TableOp.name])]
    exact opens.session_step represents populated n
  | @submitToken data sid session submitted fresh =>
    have id_eq : session.id = sid := (represents .validationSession).id_eq sid session submitted.has
    rw [List.foldl_cons, List.foldl_nil, apply_add_self, Function.update_apply]
    split
    · next here =>
      obtain rfl : n = sid := here.trans id_eq
      rw [submitted.has]
      exact .validated submitted fresh logged written
    · exact .unchanged _ _
  | bind3pid | storeInvite | pending | getAccessKey | setBlobData =>
    rw [frame (by simp [MasterRequest.tables])]
    exact .unchanged _ _

/-- What serving a request does to one session. -/
theorem serve_session {st : SharedTable} (invariant : TableInvariant st.maindb) (request : MasterRequest)
    (env : ActionEnv) (n : ℕ) :
    SessionStep (worldOf st.maindb) env st.maincounter n request (worldOf st.maindb .validationSession n)
      (worldOf (serve st request env).2.maindb .validationSession n) := by
  obtain ⟨_, same | ⟨ops, writes, logged, written, represents⟩⟩ := serve_cases invariant request env
  · rw [← same.world_eq]
    exact .unchanged _ _
  · rw [← represents.world_eq]
    exact writes.session_step invariant logged written n

/-- A stored session stays, with its medium, address and secret. -/
theorem SessionStep.kept {world : World} {env : ActionEnv} {counter n : ℕ} {request : MasterRequest}
    {session : ValidationSessionT} {after : Option ValidationSessionT}
    (step : SessionStep world env counter n request (some session) after) :
    ∃ session', after = some session' ∧ session'.medium = session.medium ∧ session'.address = session.address ∧
      session'.clientSecret = session.clientSecret := by
  cases step with
  | unchanged => exact ⟨session, rfl, rfl, rfl, rfl⟩
  | reopened => exact ⟨_, rfl, rfl, rfl, rfl⟩
  | validated => exact ⟨_, rfl, rfl, rfl, rfl⟩

end Identt.Hrpc
