import Identt.Hrpc.RequestEffects
import Identt.Lib.Run
import Identt.Store.LogView
import Identt.Store.TableRuns

/-! # Runs of the master, one request after the other

What serving a request does to the records of the tables, whatever the request, the time and the
writes' success; and that the tables keep their invariant, with every identifier below the counter.
-/

namespace Identt.Hrpc

open Store Query ReadM StoreTrans

theorem offLog_of_dataKey (st : SharedTable) {key : Bytes} (data : DataKey key) : OffLog st key :=
  .inr data.not_log

theorem gives_takeId {found : Bool} {id n counter counter' : ℕ} :
    Gives (takeId found id) counter n counter' ↔
      n = (if found then id else counter + 1) ∧ counter' = if found then counter else counter + 1 := by
  cases found <;> simp [takeId, eq_comm]

/-- Committing a transaction right after it was built carries its operations out, or nothing happens to
the tables. -/
theorem commit_represents (st : SharedTable) (invariant : TableInvariant st.maindb) {transaction : TransactionT}
    {ops : List TableOp} (built : Built st.maindb transaction ops) (env : CommitEnv) (isMaster : Bool) :
    RepresentsAll (commit env st transaction isMaster).2.maindb
      (if env.logPut && env.dataWrite then ops.foldl TableOp.apply (worldOf st.maindb) else worldOf st.maindb) := by
  have data (key : Bytes) (isData : DataKey key) := commit_offLog env st transaction isMaster
    (offLog_of_dataKey st isData)
  split
  · next written =>
    simp only [written, if_true] at data
    exact (built.applied invariant).frame data
  · next failed =>
    simp only [failed, Bool.false_eq_true, if_false, applyItems_nil] at data
    exact RepresentsAll.frame invariant data

theorem finish_snd {α : Type} (env : CommitEnv) (st : SharedTable) (prepared : Prepared α) :
    (finish env st prepared).2 = match prepared.trans with
      | none => st
      | some transaction => (commit env st transaction true).2 := by
  rw [finish]
  cases prepared.trans with
  | none => rfl
  | some transaction => simp only; split <;> simp [*]

/-- An action that committed something and answered has written it. -/
theorem written_of_finish {α : Type} {env : CommitEnv} {st : SharedTable} {prepared : Prepared α}
    {transaction : TransactionT} (commits : prepared.trans = some transaction) (nonempty : transaction.item ≠ [])
    {answer : α} (answered : (finish env st prepared).1 = .ok answer) :
    env.logPut = true ∧ env.dataWrite = true ∧ prepared.reply (commit env st transaction true).2.maindb = .ok answer := by
  rw [finish, commits] at answered
  rcases commit_cases env st transaction true with ⟨empty, _⟩ | ⟨_, _, failed⟩ | ⟨_, _, _, failed⟩ |
    ⟨_, logged, written, _, _⟩
  · exact (nonempty empty).elim
  · simp [failed] at answered
  · simp [failed] at answered
  · refine ⟨logged, written, ?_⟩
    simp only at answered
    split at answered
    · next done => rwa [done]
    · contradiction

/-- What serving a request leaves once its first half went well. -/
theorem serve_snd_of_gives {st : SharedTable} {request : MasterRequest} {env : ActionEnv}
    {prepared : Prepared MasterRequest} {counter : ℕ} (gives : Gives (request.read st env) st.maincounter prepared counter)
    {transaction : TransactionT} (commits : prepared.trans = some transaction) :
    (serve st request env).2 = (commit env.commit { st with maincounter := counter } transaction true).2 := by
  rw [serve, runAction, gives]
  simp only [finish_snd, commits]

/-- And what it does to the tables. -/
theorem serve_of_gives {st : SharedTable} (invariant : TableInvariant st.maindb) {request : MasterRequest}
    {env : ActionEnv} {prepared : Prepared MasterRequest} {counter : ℕ}
    (gives : Gives (request.read st env) st.maincounter prepared counter) {transaction : TransactionT}
    (commits : prepared.trans = some transaction) {ops : List TableOp} (built : Built st.maindb transaction ops) :
    (serve st request env).2.maincounter = counter ∧
    RepresentsAll (serve st request env).2.maindb (if env.commit.logPut && env.commit.dataWrite
      then ops.foldl TableOp.apply (worldOf st.maindb) else worldOf st.maindb) := by
  rw [serve_snd_of_gives gives commits, commit_maincounter]
  exact ⟨rfl, commit_represents { st with maincounter := counter } invariant built env.commit true⟩

/-- Serving a request takes identifiers, and may commit a transaction of operations on the tables. -/
theorem serve_outcome {st : SharedTable} (invariant : TableInvariant st.maindb) (request : MasterRequest)
    (env : ActionEnv) :
    ∃ counter, st.maincounter ≤ counter ∧
      ((serve st request env).2 = { st with maincounter := counter } ∨
        ∃ transaction ops, Writes (worldOf st.maindb) st.hostname env st.maincounter request ops counter ∧
          Built st.maindb transaction ops ∧
          (serve st request env).2 = (commit env.commit { st with maincounter := counter } transaction true).2) := by
  cases ran : (request.read st env).run st.maincounter with
  | mk result counter =>
    have grows := (request.read st env).grows st.maincounter
    rw [ran] at grows
    refine ⟨counter, grows, ?_⟩
    cases result with
    | error e =>
      left
      rw [serve, runAction, ran]
    | ok prepared =>
      cases commits : prepared.trans with
      | none =>
        left
        rw [serve, runAction, ran]
        simp only [finish_snd, commits]
      | some transaction =>
        obtain ⟨ops, writes, built⟩ := read_writes invariant ran commits
        exact .inr ⟨transaction, ops, writes, built, serve_snd_of_gives ran commits⟩

/-- What serving a request does to the tables: nothing, or all operations of its transaction. -/
theorem serve_cases {st : SharedTable} (invariant : TableInvariant st.maindb) (request : MasterRequest)
    (env : ActionEnv) :
    st.maincounter ≤ (serve st request env).2.maincounter ∧
    (RepresentsAll (serve st request env).2.maindb (worldOf st.maindb) ∨
      ∃ ops, Writes (worldOf st.maindb) st.hostname env st.maincounter request ops
          (serve st request env).2.maincounter ∧
        env.commit.logPut = true ∧ env.commit.dataWrite = true ∧
        RepresentsAll (serve st request env).2.maindb (ops.foldl TableOp.apply (worldOf st.maindb))) := by
  obtain ⟨counter, grows, same | ⟨transaction, ops, writes, built, after⟩⟩ := serve_outcome invariant request env
  · rw [same]
    exact ⟨grows, .inl invariant⟩
  · rw [after, commit_maincounter]
    refine ⟨grows, ?_⟩
    have represents := commit_represents { st with maincounter := counter } invariant built env.commit true
    split at represents
    · next written =>
      rw [Bool.and_eq_true] at written
      exact .inr ⟨ops, writes, written.1, written.2, represents⟩
    · exact .inl represents

theorem serve_lookupUsesLocal {st : SharedTable} (invariant : TableInvariant st.maindb) (request : MasterRequest)
    (env : ActionEnv) : (serve st request env).2.lookupUsesLocal = st.lookupUsesLocal := by
  obtain ⟨counter, _, same | ⟨transaction, ops, _, _, after⟩⟩ := serve_outcome invariant request env
  · rw [same]
  · rw [after, commit_lookupUsesLocal]

/-- Requests keep the tables. -/
theorem serve_tables {st : SharedTable} (invariant : TableInvariant st.maindb) (request : MasterRequest)
    (env : ActionEnv) : TableInvariant (serve st request env).2.maindb := by
  obtain ⟨_, represents | ⟨_, _, _, _, represents⟩⟩ := serve_cases invariant request env
  · exact represents.invariant
  · exact represents.invariant

/-- The tables that a request writes to. -/
def MasterRequest.tables : MasterRequest → List TableName
  | .requestToken _ => [.validationSession, .tokenAuth, .parAvion]
  | .submitToken _ => [.validationSession]
  | .getValidated3pid _ => []
  | .bind3pid _ => [.localAssoc, .globalAssoc, .inviteToken, .parAvion]
  | .storeInvite _ => [.inviteToken, .ephemeralPublicKey, .parAvion]
  | .pending _ => [.parAvion]
  | .getAccessKey _ => [.accessKey]
  | .setBlobData _ => [.blobStore]

/-- All operations of a request are on its tables. -/
theorem Writes.name_mem {world : World} {hostname : Bytes} {env : ActionEnv} {counter counter' : ℕ}
    {request : MasterRequest} {ops : List TableOp} (writes : Writes world hostname env counter request ops counter')
    {op : TableOp} (inOps : op ∈ ops) : op.name ∈ request.tables := by
  cases writes with
  | requestToken populated opens =>
    rcases List.mem_append.mp inOps with opening | sending
    · rw [opens.names op opening]
      simp [MasterRequest.tables]
    · simp only [List.mem_cons, List.not_mem_nil, or_false] at sending
      rcases sending with rfl | rfl <;> simp [MasterRequest.tables, TableOp.name]
  | bind3pid =>
    simp only [List.cons_append, List.nil_append, List.mem_cons, List.mem_append, List.mem_map,
      List.not_mem_nil, or_false] at inOps
    rcases inOps with rfl | rfl | ⟨token, _, rfl⟩ | rfl <;> simp [MasterRequest.tables, TableOp.name]
  | storeInvite =>
    simp only [List.mem_cons, List.not_mem_nil, or_false] at inOps
    rcases inOps with rfl | rfl | rfl <;> simp [MasterRequest.tables, TableOp.name]
  | pending =>
    obtain ⟨done, _, rfl⟩ := List.mem_map.mp inOps
    simp [MasterRequest.tables, TableOp.name]
  | submitToken | getAccessKey | setBlobData =>
    rw [List.mem_singleton.mp inOps]
    simp [MasterRequest.tables, TableOp.name]

/-- The associations that the operations of a binding leave. -/
theorem foldl_bind (world : World) (assoc : LocalAssocT) (published : GlobalAssocT) (tokens : List InviteTokenT)
    (now : UInt64) (mail : ParAvionT) :
    ([TableOp.add .localAssoc assoc, TableOp.add .globalAssoc published] ++
        tokens.map (fun token => TableOp.add .inviteToken { token with sentTs := now }) ++
        [TableOp.add .parAvion mail]).foldl TableOp.apply world .localAssoc =
      Function.update (world .localAssoc) assoc.id (some assoc) ∧
    ([TableOp.add .localAssoc assoc, TableOp.add .globalAssoc published] ++
        tokens.map (fun token => TableOp.add .inviteToken { token with sentTs := now }) ++
        [TableOp.add .parAvion mail]).foldl TableOp.apply world .globalAssoc =
      Function.update (world .globalAssoc) published.id (some published) := by
  rw [List.append_assoc, List.cons_append, List.foldl_cons]
  constructor
  · rw [foldl_apply_of_notMem (by simp [TableOp.name, Function.comp_def]), apply_add_self]
    rfl
  · rw [List.cons_append, List.foldl_cons, foldl_apply_of_notMem (by simp [TableOp.name, Function.comp_def]),
      apply_add_self, TableOp.apply_of_ne _ _ (by simp [TableOp.name])]
    rfl

/-- A request leaves all other tables alone. -/
theorem Writes.frame (name : TableName) {world : World} {hostname : Bytes} {env : ActionEnv} {counter counter' : ℕ}
    {request : MasterRequest} {ops : List TableOp} (writes : Writes world hostname env counter request ops counter')
    (other : name ∉ request.tables) : ops.foldl TableOp.apply world name = world name := by
  apply foldl_apply_of_notMem
  intro member
  obtain ⟨op, inOps, rfl⟩ := List.mem_map.mp member
  exact other (writes.name_mem inOps)

section Passed

variable {db : DB} {world : World} {counter counter' : ℕ}

/-- An identifier that is kept, or taken for a new record, has been handed out. -/
theorem LookedUp.id_le (name : TableName) (represents : RepresentsAll db world)
    (numbered : Numbered world counter) {keytype : KeyTypeE} {probe record : name.Record} {found : Bool} {id : ℕ}
    (looked : LookedUp name.table (world name) keytype probe (found, record))
    (takes : Gives (takeId found (name.table.id record)) counter id counter') : id ≤ counter' := by
  obtain ⟨rfl, rfl⟩ := gives_takeId.mp takes
  cases looked with
  | found n record has same =>
    rw [if_pos rfl, if_pos rfl, (represents name).id_eq n record has]
    exact numbered name n record has
  | absent none => exact le_rfl

theorem Opened.passed (represents : RepresentsAll db world) (numbered : Numbered world counter) {now : UInt64}
    {probe session : ValidationSessionT} {expired : Bool} {ops : List TableOp}
    (opened : Opened world now counter probe session expired ops counter') : ∀ op ∈ ops, op.Passed counter' := by
  intro op member
  cases opened with
  | kept => exact (List.not_mem_nil member).elim
  | reopened n session has same late =>
    rw [List.mem_singleton.mp member]
    have id_eq : session.id = n := (represents .validationSession).id_eq n session has
    change session.id ≤ counter
    rw [id_eq]
    exact numbered .validationSession n session has
  | created absent =>
    rw [List.mem_singleton.mp member]
    exact le_rfl

theorem Opened.grows {now : UInt64} {probe session : ValidationSessionT} {expired : Bool} {ops : List TableOp}
    (opened : Opened world now counter probe session expired ops counter') : counter ≤ counter' := by
  cases opened <;> omega

/-- The operations of a transaction take their new identifiers from the counter. -/
theorem Writes.passed (represents : RepresentsAll db world) (numbered : Numbered world counter) {hostname : Bytes}
    {env : ActionEnv} {request : MasterRequest} {ops : List TableOp}
    (writes : Writes world hostname env counter request ops counter') : ∀ op ∈ ops, op.Passed counter' := by
  cases writes with
  | @requestToken data address session expired found opening tokenauth opened id taken populated opens looked
      sends takes free =>
    have fresh := takes.grows
    have idPassed := LookedUp.id_le .tokenAuth represents (numbered.mono opens.grows) looked takes
    simp only [List.forall_mem_append, List.forall_mem_cons, List.not_mem_nil, false_implies, implies_true,
      and_true]
    refine ⟨fun op member => (opens.passed represents numbered op member).mono (by omega), ?_, ?_⟩
    · exact idPassed.trans (Nat.le_succ _)
    · exact le_rfl
  | @submitToken data sid session submitted fresh =>
    have id_eq : session.id = sid := (represents .validationSession).id_eq sid session submitted.has
    rw [List.forall_mem_singleton]
    change session.id ≤ counter
    rw [id_eq]
    exact numbered .validationSession sid session submitted.has
  | @bind3pid data sid session localFound globalFound localassoc globalassoc tokens tosign output localId
      localTaken globalId globalTaken usable localLooked localTakes localFree globalLooked globalTakes globalFree
      stored =>
    have localGrows := localTakes.grows
    have globalGrows := globalTakes.grows
    have localPassed := LookedUp.id_le .localAssoc represents numbered localLooked localTakes
    have globalPassed := LookedUp.id_le .globalAssoc represents (numbered.mono localGrows) globalLooked globalTakes
    simp only [List.forall_mem_append, List.forall_mem_cons, List.not_mem_nil, false_implies, implies_true,
      and_true, List.forall_mem_map]
    refine ⟨⟨⟨?_, ?_⟩, fun token member => ?_⟩, ?_⟩
    · change localId ≤ globalTaken + 1
      omega
    · change globalId ≤ globalTaken + 1
      omega
    · have old := numbered .inviteToken token.id token (stored token member)
      change token.id ≤ globalTaken + 1
      omega
    · exact le_rfl
  | storeInvite =>
    simp only [List.forall_mem_cons, List.not_mem_nil, false_implies, implies_true, and_true]
    refine ⟨?_, ?_, ?_⟩
    · change counter + 1 ≤ counter + 3
      omega
    · change counter + 2 ≤ counter + 3
      omega
    · exact le_rfl
  | pending =>
    rw [List.forall_mem_map]
    exact fun _ _ => trivial
  | getAccessKey =>
    rw [List.forall_mem_singleton]
    exact le_rfl
  | setBlobData looked takes free =>
    rw [List.forall_mem_singleton]
    exact LookedUp.id_le .blobStore represents numbered looked takes

end Passed

/-- The tables keep their invariant, and every identifier was handed out by the counter. -/
structure Consistent (st : SharedTable) : Prop where
  invariant : TableInvariant st.maindb
  numbered : Numbered (worldOf st.maindb) st.maincounter

theorem Consistent.serve {st : SharedTable} (consistent : Consistent st) (request : MasterRequest)
    (env : ActionEnv) : Consistent (serve st request env).2 := by
  obtain ⟨grows, same | ⟨ops, writes, _, _, represents⟩⟩ := serve_cases consistent.invariant request env
  · refine ⟨same.invariant, ?_⟩
    rw [← same.world_eq]
    exact consistent.numbered.mono grows
  · refine ⟨represents.invariant, ?_⟩
    rw [← represents.world_eq]
    exact (consistent.numbered.mono grows).applyAll (writes.passed consistent.invariant consistent.numbered)

/-- One request and what its environment decides. -/
abbrev ServeStep := MasterRequest × ActionEnv

def serveStep (st : SharedTable) (label : ServeStep) : SharedTable := (serve st label.1 label.2).2

/-- A master on an empty store. -/
def EmptyStore (st : SharedTable) : Prop := st.maindb = StoreLevel.putFences .empty

theorem EmptyStore.world_eq {st : SharedTable} (empty : EmptyStore st) :
    worldOf st.maindb = fun _ _ => none := by
  rw [empty]
  exact representsAll_putFences.world_eq.symm

theorem EmptyStore.nothing {st : SharedTable} (empty : EmptyStore st) (name : TableName) (n : ℕ)
    (record : name.Record) : worldOf st.maindb name n ≠ some record := by
  rw [empty.world_eq]
  exact nofun

theorem EmptyStore.consistent {st : SharedTable} (empty : EmptyStore st) : Consistent st := by
  refine ⟨?_, ?_⟩
  · rw [empty]
    exact tableInvariant_putFences
  · intro name n record has
    exact (empty.nothing name n record has).elim

theorem EmptyStore.run_consistent {st : SharedTable} (empty : EmptyStore st) (labels : List ServeStep) :
    Consistent (Run.final serveStep st labels) :=
  Run.invariant (fun _ label consistent => consistent.serve label.1 label.2) empty.consistent labels

/-- A master on an empty store, just started. -/
def emptyMaster : SharedTable where
  maincounter := 1
  logcounter := 1
  maindb := StoreLevel.putFences .empty
  isMaster := true
  hostname := ascii "x"

def tokenRequest (email clientSecret : String) (sendAttempt : ℤ) : MasterRequest :=
  .requestToken
    { medium := ascii "email"
      reqtok := { email := ascii email, clientSecret := ascii clientSecret, sendAttempt := sendAttempt } }

theorem emptyStore_emptyMaster : EmptyStore emptyMaster := rfl

end Identt.Hrpc
