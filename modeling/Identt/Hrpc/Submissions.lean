import Identt.Hrpc.SessionSteps
import Identt.Store.LastId

/-! # Submissions that succeed

When a submission succeeds, in terms of the records before it. A transaction that puts one record
whose other keys stay as they are cannot fail in the cache, so such a submission succeeds whenever
its writes do.
-/

namespace Identt.Hrpc

open Store Query ReadM ValidateService StoreTrans

/-- The label is a submission that presents the token then stored for the session, and succeeds. -/
def Validates (st : SharedTable) (label : ServeStep) (sid : ℕ) : Prop :=
  ∃ data reply, label.1 = .submitToken data ∧ stoul data.subtok.sid = .ok sid ∧
    (∃ m tokenauth, worldOf st.maindb .tokenAuth m = some tokenauth ∧ tokenauth.validationSession = sid ∧
      tokenauth.token = data.subtok.token) ∧
    (serve st label.1 label.2).1 = .ok (.submitToken reply) ∧ reply.result.success = true

section Submit

variable {st : SharedTable} {env : ActionEnv} {data : SubmitTokenDataT} {sid : ℕ} {session : ValidationSessionT}

theorem serve_eq_of_gives {request : MasterRequest} {prepared : Prepared MasterRequest} {counter : ℕ}
    (gives : Gives (request.read st env) st.maincounter prepared counter) :
    serve st request env = finish env.commit { st with maincounter := counter } prepared := by
  rw [serve, runAction, gives]

theorem gives_of_serve_ok {request reply : MasterRequest} (answered : (serve st request env).1 = .ok reply) :
    ∃ prepared counter, Gives (request.read st env) st.maincounter prepared counter := by
  rw [serve, runAction] at answered
  split at answered
  · next prepared counter ran => exact ⟨prepared, counter, ran⟩
  · contradiction

/-- What a request that commits is answered, if its items cannot stop the cache. -/
theorem serve_of_accepts {request reply : MasterRequest} {transaction : TransactionT} {counter : ℕ}
    (gives : Gives (request.read st env) st.maincounter ⟨some transaction, fun _ => .ok reply⟩ counter)
    (nonempty : transaction.item ≠ []) (accepts : CacheAccepts st transaction) :
    (serve st request env).1 =
      if env.commit.logPut then
        if env.commit.dataWrite then .ok reply else .error (.badData "Insert failed for data")
      else .error (.badData "Insert failed for log") := by
  rw [serve_eq_of_gives gives, finish]
  cases logged : env.commit.logPut with
  | false => simp [commit_logFailed _ true nonempty logged]
  | true =>
    cases written : env.commit.dataWrite with
    | false => simp [commit_dataFailed _ true nonempty logged written]
    | true =>
      have committed := (commit_written { st with maincounter := counter } true nonempty logged written).1.mpr accepts
      simp only [if_true]
      split
      · rfl
      · next failed =>
        rw [failed] at committed
        contradiction

/-- When a request that commits is answered, and what. -/
theorem serve_ok_iff {request reply answer : MasterRequest} {transaction : TransactionT} {counter : ℕ}
    (gives : Gives (request.read st env) st.maincounter ⟨some transaction, fun _ => .ok reply⟩ counter)
    (nonempty : transaction.item ≠ []) :
    (serve st request env).1 = .ok answer ↔ reply = answer ∧
      env.commit.logPut = true ∧ env.commit.dataWrite = true ∧ CacheAccepts st transaction := by
  constructor
  · intro answered
    rw [serve_eq_of_gives gives] at answered
    obtain ⟨logged, written, replied⟩ := written_of_finish rfl nonempty answered
    refine ⟨Except.ok.inj replied, logged, written,
      (commit_written { st with maincounter := counter } true nonempty logged written).1.mp ?_⟩
    rw [finish] at answered
    simp only at answered
    split at answered
    · next done => rw [done]
    · contradiction
  · rintro ⟨rfl, logged, written, accepts⟩
    rw [serve_of_accepts gives nonempty accepts, logged, written]
    rfl

theorem Submitted.id_eq (invariant : TableInvariant st.maindb) {now : UInt64} {subtok : SubmitTokenT}
    (submitted : Submitted (worldOf st.maindb) now subtok sid session) : session.id = sid :=
  (invariant .validationSession).id_eq sid session submitted.has

theorem Submitted.checked (invariant : TableInvariant st.maindb)
    (submitted : Submitted (worldOf st.maindb) env.currtime data.subtok sid session) :
    submittedSession st env data.subtok = .ok session := by
  have real : session ≠ default := by
    rintro rfl
    have zero : (0 : ℕ) = sid := submitted.id_eq invariant
    exact (invariant .validationSession).ne_zero submitted.has zero.symm
  exact (submittedSession_eq_ok_iff invariant real).mpr ⟨sid, submitted⟩

/-- A submission for a session that is validated already succeeds and writes nothing. -/
theorem serve_submitToken_again (invariant : TableInvariant st.maindb)
    (submitted : Submitted (worldOf st.maindb) env.currtime data.subtok sid session)
    (validated : session.validated ≠ 0) :
    serve st (.submitToken data) env =
      (.ok (.submitToken (submitTokenReply data "This session is already validated")), st) := by
  have gives : Gives ((MasterRequest.submitToken data).read st env) st.maincounter
      ⟨none, fun _ => .ok (.submitToken (submitTokenReply data "This session is already validated"))⟩
      st.maincounter := by
    simp only [MasterRequest.read, submitTokenAction, gives_bind, gives_lift, gives_pure]
    refine ⟨⟨none, fun _ => .ok (submitTokenReply data "This session is already validated")⟩, _,
      ⟨session, _, ⟨submitted.checked invariant, rfl⟩, ?_⟩, rfl, rfl⟩
    rw [if_pos (Nat.pos_of_ne_zero validated)]
    exact gives_pure.mpr ⟨rfl, rfl⟩
  rw [serve_eq_of_gives gives]
  rfl

/-- The transaction of a first submission: the session's other key stays, so it puts one item, under the
primary key. -/
def validation (env : ActionEnv) (session : ValidationSessionT) : TransactionT :=
  TransactionT.append {} [⟨encodePrimaryKey .kValidationSession session.id,
    .validationSession { session with validated := 1, mtime := env.currtime }, false⟩]

theorem insert_validation (invariant : TableInvariant st.maindb)
    (submitted : Submitted (worldOf st.maindb) env.currtime data.subtok sid session) :
    validationSessionTable.insert st.maindb { session with validated := 1, mtime := env.currtime } {} true
      "Cannot Insert vsession" = .ok (validation env session) := by
  have represents : validationSessionTable.Represents st.maindb (worldOf st.maindb .validationSession) :=
    invariant .validationSession
  have acceptable : validationSessionTable.Acceptable (worldOf st.maindb .validationSession)
      { session with validated := 1, mtime := env.currtime } :=
    acceptable_update represents submitted.has (submitted.id_eq invariant)
      (represents.found sid session submitted.has) fun keytype member => by rw [List.mem_singleton.mp member]; rfl
  have old : worldOf st.maindb .validationSession session.id = some session := by
    rw [submitted.id_eq invariant]
    exact submitted.has
  have items : (TableOp.add .validationSession { session with validated := 1, mtime := env.currtime }).items
      (worldOf st.maindb) = [⟨encodePrimaryKey .kValidationSession session.id,
        .validationSession { session with validated := 1, mtime := env.currtime }, false⟩] := by
    change validationSessionTable.recordItems (worldOf st.maindb .validationSession session.id)
      { session with validated := 1, mtime := env.currtime } = _
    rw [old]
    exact StoreTable.recordItems_of_same_keys _ fun keytype member => by rw [List.mem_singleton.mp member]; rfl
  exact (insert_eq_ok_iff .validationSession invariant).mpr ⟨acceptable, .inr rfl, by rw [validation, items]⟩

theorem gives_validation (invariant : TableInvariant st.maindb)
    (submitted : Submitted (worldOf st.maindb) env.currtime data.subtok sid session)
    (fresh : session.validated = 0) :
    Gives ((MasterRequest.submitToken data).read st env) st.maincounter
      ⟨some (validation env session), fun _ => .ok (.submitToken (submitTokenReply data "This session is now validated"))⟩
      st.maincounter := by
  simp only [MasterRequest.read, submitTokenAction, gives_bind, gives_lift, gives_pure]
  refine ⟨⟨some (validation env session), fun _ => .ok (submitTokenReply data "This session is now validated")⟩, _,
    ⟨session, _, ⟨submitted.checked invariant, rfl⟩, ?_⟩, rfl, rfl⟩
  rw [if_neg (by omega)]
  simp only [gives_bind, gives_lift, gives_pure]
  exact ⟨validation env session, _, ⟨insert_validation invariant submitted, rfl⟩, rfl, rfl⟩

/-- A first submission succeeds if its writes do. -/
theorem serve_submitToken_first (invariant : TableInvariant st.maindb)
    (submitted : Submitted (worldOf st.maindb) env.currtime data.subtok sid session)
    (fresh : session.validated = 0) :
    (serve st (.submitToken data) env).1 =
      if env.commit.logPut then
        if env.commit.dataWrite then .ok (.submitToken (submitTokenReply data "This session is now validated"))
        else .error (.badData "Insert failed for data")
      else .error (.badData "Insert failed for log") :=
  serve_of_accepts (gives_validation invariant submitted fresh) (by simp [validation])
    fun _ => cachable_primary _ _ _ _

/-- When a submission succeeds. -/
theorem validates_iff (invariant : TableInvariant st.maindb) {label : ServeStep} :
    Validates st label sid ↔ ∃ data session, label.1 = .submitToken data ∧
      Submitted (worldOf st.maindb) label.2.currtime data.subtok sid session ∧
      (session.validated = 0 → label.2.commit.logPut = true ∧ label.2.commit.dataWrite = true) := by
  obtain ⟨request, env⟩ := label
  constructor
  · rintro ⟨data, reply, rfl, parsed, _, answered, _⟩
    obtain ⟨prepared, counter, gives⟩ := gives_of_serve_ok answered
    simp only [MasterRequest.read, submitTokenAction, gives_bind, gives_lift, gives_pure] at gives
    obtain ⟨_, _, ⟨session, _, ⟨checked, rfl⟩, gives⟩, _, _⟩ := gives
    have real : session ≠ default := by
      rintro rfl
      -- the fence is not validated, and it cannot be stored as a session
      rw [if_neg (by decide)] at gives
      simp only [gives_bind, gives_lift] at gives
      obtain ⟨_, _, ⟨inserted, _⟩, _⟩ := gives
      exact ((insert_eq_ok_iff .validationSession invariant).mp inserted).1.id_ne_zero rfl
    obtain ⟨sid', submitted⟩ := (submittedSession_eq_ok_iff invariant real).mp checked
    obtain rfl : sid' = sid := Except.ok.inj (submitted.parsed.symm.trans parsed)
    refine ⟨data, session, rfl, submitted, fun fresh => ?_⟩
    rw [serve_submitToken_first invariant submitted fresh] at answered
    split at answered
    · next logged =>
      split at answered
      · next written => exact ⟨logged, written⟩
      · contradiction
    · contradiction
  · rintro ⟨data, session, rfl, submitted, writes⟩
    by_cases fresh : session.validated = 0
    · obtain ⟨logged, written⟩ := writes fresh
      refine ⟨data, submitTokenReply data "This session is now validated", rfl, submitted.parsed, submitted.token,
        ?_, rfl⟩
      rw [serve_submitToken_first invariant submitted fresh, if_pos logged, if_pos written]
    · refine ⟨data, submitTokenReply data "This session is already validated", rfl, submitted.parsed, submitted.token,
        ?_, rfl⟩
      rw [serve_submitToken_again invariant submitted fresh]

/-- After a submission that succeeded the session is validated. -/
theorem Validates.stored (invariant : TableInvariant st.maindb) {label : ServeStep} (validates : Validates st label sid) :
    ∃ session, worldOf (serveStep st label).maindb .validationSession sid = some session ∧ session.validated ≠ 0 := by
  obtain ⟨request, env⟩ := label
  obtain ⟨data, session, isSubmit, submitted, writes⟩ := (validates_iff invariant).mp validates
  obtain rfl : request = .submitToken data := isSubmit
  by_cases fresh : session.validated = 0
  · obtain ⟨logged, written⟩ : env.commit.logPut = true ∧ env.commit.dataWrite = true := writes fresh
    obtain ⟨_, represents⟩ := serve_of_gives invariant (gives_validation invariant submitted fresh) rfl
      ((Built.start _).insert .validationSession invariant (insert_validation invariant submitted) List.not_mem_nil)
    rw [logged, written, Bool.and_self, if_pos rfl, List.nil_append, List.foldl_cons, List.foldl_nil] at represents
    refine ⟨{ session with validated := 1, mtime := env.currtime }, ?_, Nat.one_ne_zero⟩
    rw [serveStep, ← represents.world_eq, apply_add_self]
    rw [← submitted.id_eq invariant]
    exact Function.update_self ..
  · refine ⟨session, ?_, fresh⟩
    rw [serveStep, serve_submitToken_again invariant submitted fresh]
    exact submitted.has

end Submit

end Identt.Hrpc
