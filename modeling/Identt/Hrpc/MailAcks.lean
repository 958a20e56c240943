import Identt.Hrpc.PendingPages
import Identt.Hrpc.TokenAddress

/-! # Messages that the sender has dealt with

A sender gives a batch back with the messages marked that it has sent. All messages of the batch are
deleted, marked or not; so a message is lost as soon as a batch names it that does not mark it.
-/

namespace Identt.Hrpc

open Store Query ReadM StoreTrans MailSmsService

/-- The key that an outgoing message is stored under. -/
def parAvionKey (n : ℕ) : Bytes := encodePrimaryKey .kParAvion n

/-- The call marks a pending message as sent. -/
def MarksSent (n : ℕ) (st : SharedTable) (mailq : Mail.MailQueryT) : Prop :=
  (∃ done ∈ mailq.payload, done.id = n ∧ done.actkey = .aMailSent) ∧ ∃ mail, worldOf st.maindb .parAvion n = some mail

/-- The call removes the messages that it marks as sent, and leaves all other data as it was. -/
structure DropsMarked (st : SharedTable) (mailq : Mail.MailQueryT) (env : ActionEnv) : Prop where
  dropped : ∀ n, MarksSent n st mailq → (serve st (.pending mailq) env).2.maindb.get? (parAvionKey n) = none
  kept : ∀ key, OffLog st key → (∀ n, MarksSent n st mailq → key ≠ parAvionKey n) →
    (serve st (.pending mailq) env).2.maindb.get? key = st.maindb.get? key

/-- If the store takes the call's deletions, every entry whose key is there names a message that the call marks as
sent; if the store refuses them, the call marks none. -/
def MarksNamed (st : SharedTable) (mailq : Mail.MailQueryT) (env : ActionEnv) : Prop :=
  if env.commit.logPut && env.commit.dataWrite then
    ∀ done ∈ mailq.payload, st.maindb.get? (parAvionKey done.id) ≠ none → MarksSent done.id st mailq
  else ∀ n, ¬ MarksSent n st mailq

/-- A label that calls for pending messages marks what it names. -/
def CarefulLabel (st : SharedTable) (label : ServeStep) : Prop :=
  ∀ mailq, label.1 = .pending mailq → MarksNamed st mailq label.2

/-- The label marks the message as sent. -/
def MarkedBy (n : ℕ) (st : SharedTable) (label : ServeStep) : Prop :=
  ∃ mailq, label.1 = .pending mailq ∧ MarksSent n st mailq

theorem dataKey_parAvionKey (n : ℕ) : DataKey (parAvionKey n) :=
  ⟨.parAvion, .kParAvion, List.mem_cons_self .., hasType_encodePrimaryKey ..⟩

theorem parAvionKey_inj {m n : ℕ} : parAvionKey m = parAvionKey n ↔ m = n := encodePrimaryKey_inj

/-- A pending message is stored under its key. -/
theorem get?_parAvionKey {db : DB} (invariant : TableInvariant db) {n : ℕ} {mail : ParAvionT}
    (has : worldOf db .parAvion n = some mail) : db.get? (parAvionKey n) = some (.data (.parAvion mail)) := by
  have stored := (invariant .parAvion).primary n ((invariant .parAvion).ne_zero has)
  rw [has] at stored
  exact stored

theorem MarksSent.bound {st : SharedTable} (invariant : TableInvariant st.maindb) {n : ℕ} {mailq : Mail.MailQueryT}
    (marked : MarksSent n st mailq) : st.maindb.get? (parAvionKey n) ≠ none := by
  obtain ⟨_, mail, has⟩ := marked
  rw [get?_parAvionKey invariant has]
  exact nofun

/-- The items of a batch: one deletion for each of its messages. -/
theorem dropDone_item (db : DB) (payload : List Mail.MPayloadT) :
    (dropDone payload).item = payload.map fun done => ⟨parAvionKey done.id, .empty, true⟩ := by
  rw [(dropDone_built db payload).items, List.flatMap_map]
  exact List.flatMap_pure_eq_map _ payload

/-- The data after a call: what its batch names is gone, whether it is marked or not. -/
theorem serve_pending_get? (st : SharedTable) (mailq : Mail.MailQueryT) (env : ActionEnv) {key : Bytes}
    (offLog : OffLog st key) : (serve st (.pending mailq) env).2.maindb.get? key =
      if (env.commit.logPut && env.commit.dataWrite) = true ∧ ∃ done ∈ mailq.payload, parAvionKey done.id = key
      then none else st.maindb.get? key := by
  by_cases nothing : mailq.payload = []
  · rw [serve_pending_fetch st nothing env, nothing, if_neg]
    rintro ⟨_, _, member, _⟩
    exact List.not_mem_nil member
  · have gives : Gives ((MasterRequest.pending mailq).read st env) st.maincounter
        ⟨some (dropDone mailq.payload), fun db => (fetchPending db { mailq with payload := [] }).map .pending⟩
        st.maincounter := by
      simp only [MasterRequest.read, pendingAction, if_neg nothing, gives_bind, gives_pure]
      exact ⟨_, _, ⟨rfl, rfl⟩, rfl, rfl⟩
    rw [serve_snd_of_gives gives rfl, commit_offLog env.commit _ _ true offLog, dropDone_item st.maindb]
    cases env.commit.logPut && env.commit.dataWrite with
    | false => simp
    | true =>
      simp only [if_true, true_and]
      split
      · next named =>
        apply applyItems_of_deleted
        · obtain ⟨done, member, here⟩ := named
          exact ⟨_, List.mem_map_of_mem member, here⟩
        · intro item member
          obtain ⟨_, _, rfl⟩ := List.mem_map.mp member
          rfl
      · next other =>
        apply applyItems_of_untouched
        intro item member here
        obtain ⟨done, inPayload, rfl⟩ := List.mem_map.mp member
        exact other ⟨done, inPayload, here⟩

/-- A call drops what it marks and nothing else exactly if it marks what it names. -/
theorem dropsMarked_iff {st : SharedTable} (invariant : TableInvariant st.maindb) (mailq : Mail.MailQueryT)
    (env : ActionEnv) : DropsMarked st mailq env ↔ MarksNamed st mailq env := by
  have offLog (n : ℕ) : OffLog st (parAvionKey n) := offLog_of_dataKey st (dataKey_parAvionKey n)
  unfold MarksNamed
  split
  · next written =>
    constructor
    · intro drops done member bound
      by_contra unmarked
      have gone := serve_pending_get? st mailq env (offLog done.id)
      rw [if_pos ⟨written, done, member, rfl⟩] at gone
      have kept := drops.kept (parAvionKey done.id) (offLog done.id) (by
        rintro n marked same
        obtain rfl := parAvionKey_inj.mp same
        exact unmarked marked)
      exact bound (kept.symm.trans gone)
    · intro marks
      refine ⟨fun n marked => ?_, fun key off other => ?_⟩
      · obtain ⟨done, member, rfl, _⟩ := marked.1
        rw [serve_pending_get? st mailq env (offLog done.id), if_pos ⟨written, done, member, rfl⟩]
      · rw [serve_pending_get? st mailq env off]
        split
        · next named =>
          obtain ⟨_, done, member, rfl⟩ := named
          by_contra bound
          exact other done.id (marks done member (Ne.symm bound)) rfl
        · rfl
  · next refused =>
    constructor
    · intro drops n marked
      have gone := drops.dropped n marked
      rw [serve_pending_get? st mailq env (offLog n), if_neg fun named => refused named.1] at gone
      exact marked.bound invariant gone
    · intro none
      refine ⟨fun n marked => (none n marked).elim, fun key off _ => ?_⟩
      rw [serve_pending_get? st mailq env off, if_neg fun named => refused named.1]

/-- Other requests only add messages, under new numbers. -/
theorem Writes.mail_isNew {world : World} {counter counter' : ℕ} {hostname : Bytes} {env : ActionEnv}
    {request : MasterRequest} {ops : List TableOp} (writes : Writes world hostname env counter request ops counter')
    (notPending : ∀ mailq, request ≠ .pending mailq) {op : TableOp} (member : op ∈ ops) (isMail : op.name = .parAvion) :
    counter < op.recordId := by
  have touches := writes.name_mem member
  rw [isMail] at touches
  cases writes with
  | requestToken populated opens looked sends takes =>
    have openingGrows := opens.grows
    have takesGrows := takes.grows
    rcases List.mem_append.mp member with inOpening | isLast
    · rw [opens.names op inOpening] at isMail
      contradiction
    · simp only [List.mem_cons, List.not_mem_nil, or_false] at isLast
      rcases isLast with rfl | rfl
      · contradiction
      · exact Nat.lt_succ_of_le (openingGrows.trans takesGrows)
  | bind3pid usable localLooked localTakes localFree globalLooked globalTakes =>
    have localGrows := localTakes.grows
    have globalGrows := globalTakes.grows
    simp only [List.cons_append, List.nil_append, List.mem_cons, List.mem_append, List.mem_map,
      List.not_mem_nil, or_false] at member
    rcases member with rfl | rfl | ⟨token, _, rfl⟩ | rfl
    · contradiction
    · contradiction
    · contradiction
    · exact Nat.lt_succ_of_le (localGrows.trans globalGrows)
  | storeInvite =>
    simp only [List.mem_cons, List.not_mem_nil, or_false] at member
    rcases member with rfl | rfl | rfl
    · contradiction
    · contradiction
    · exact Nat.lt_add_of_pos_right (by omega)
  | pending => exact (notPending _ rfl).elim
  | submitToken | getAccessKey | setBlobData => simp [MasterRequest.tables] at touches

/-- A careful request keeps every message that it does not mark as sent. -/
theorem serve_keeps_mail {st : SharedTable} (consistent : Consistent st) {label : ServeStep}
    (careful : CarefulLabel st label) {n : ℕ} {mail : ParAvionT} (has : worldOf st.maindb .parAvion n = some mail)
    (unmarked : ¬ MarkedBy n st label) : worldOf (serveStep st label).maindb .parAvion n = some mail := by
  obtain ⟨request, env⟩ := label
  by_cases isPending : ∃ mailq, request = .pending mailq
  · obtain ⟨mailq, rfl⟩ := isPending
    have drops := (dropsMarked_iff consistent.invariant mailq env).mpr (careful mailq rfl)
    have after := (consistent.serve (.pending mailq) env).invariant
    have kept := drops.kept (parAvionKey n) (offLog_of_dataKey st (dataKey_parAvionKey n)) (by
      rintro m marked same
      obtain rfl := parAvionKey_inj.mp same
      exact unmarked ⟨mailq, rfl, marked⟩)
    rw [get?_parAvionKey consistent.invariant has] at kept
    have stored := (after .parAvion).primary n ((consistent.invariant .parAvion).ne_zero has)
    change (serve st (.pending mailq) env).2.maindb.get? (parAvionKey n) = _ at stored
    rw [kept] at stored
    change worldOf (serve st (.pending mailq) env).2.maindb .parAvion n = some mail
    cases found : worldOf (serve st (.pending mailq) env).2.maindb .parAvion n with
    | none =>
      rw [found] at stored
      contradiction
    | some other =>
      rw [found] at stored
      cases stored
      rfl
  · obtain ⟨_, same | ⟨ops, writes, _, _, represents⟩⟩ := serve_cases consistent.invariant request env
    · change worldOf (serve st request env).2.maindb .parAvion n = some mail
      rw [← same.world_eq]
      exact has
    · change worldOf (serve st request env).2.maindb .parAvion n = some mail
      rw [← represents.world_eq]
      rw [foldl_apply_of_other fun op member isMail => (lt_of_le_of_lt (consistent.numbered .parAvion n mail has)
        (writes.mail_isNew (not_exists.mp isPending) member isMail)).ne']
      exact has

/-- In a run of careful requests, a message is there as long as no request marked it as sent. -/
theorem mail_kept_until_marked {st : SharedTable} (consistent : Consistent st) {labels : List ServeStep}
    (careful : Run.Guarded serveStep CarefulLabel st labels) {n : ℕ} {mail : ParAvionT}
    (has : worldOf st.maindb .parAvion n = some mail) :
    worldOf (Run.final serveStep st labels).maindb .parAvion n = some mail ∨
      ∃ j, Run.Occurs serveStep (MarkedBy n) st labels j := by
  induction labels generalizing st with
  | nil => exact .inl has
  | cons label rest ih =>
    obtain ⟨here, later⟩ := Run.guarded_cons.mp careful
    by_cases marks : MarkedBy n st label
    · exact .inr ⟨0, label, rfl, marks⟩
    · rcases ih (consistent.serve label.1 label.2) later (serve_keeps_mail consistent here has marks) with
        kept | ⟨j, other, at_j, marked⟩
      · exact .inl kept
      · exact .inr ⟨j + 1, other, at_j, marked⟩

/-- After every run of requests on an empty store: a call drops the messages that it marks as sent and nothing else,
exactly if it marks what it names; and as long as all calls do, a message stays until a call marks it as sent. -/
theorem drops_iff {start : SharedTable} (empty : EmptyStore start) (labels : List ServeStep) :
    (∀ mailq env, DropsMarked (Run.final serveStep start labels) mailq env ↔
      MarksNamed (Run.final serveStep start labels) mailq env) ∧
    ∀ more, Run.Guarded serveStep CarefulLabel (Run.final serveStep start labels) more → ∀ n mail,
      worldOf (Run.final serveStep start labels).maindb .parAvion n = some mail →
        worldOf (Run.final serveStep start (labels ++ more)).maindb .parAvion n = some mail ∨
          ∃ j, Run.Occurs serveStep (MarkedBy n) (Run.final serveStep start labels) more j := by
  have consistent := empty.run_consistent labels
  refine ⟨dropsMarked_iff consistent.invariant, fun more careful n mail has => ?_⟩
  rw [Run.final_append]
  exact mail_kept_until_marked consistent careful has

/-- One message is pending, for a token. -/
def onePending : List ServeStep :=
  [(tokenRequest "a@x.com" "s" 1, { currtime := 1000000, commit := { now := 1000000 } })]

/-- The sender gives the message back as it was handed out. -/
def echoed : Mail.MailQueryT where
  payload := [{ id := 4, actkey := .aAuthToken, retry := 1 }]

/-- The message is deleted although the sender did not mark it. -/
theorem echoed_not_dropsMarked : EmptyStore emptyMaster ∧
    ¬ DropsMarked (Run.final serveStep emptyMaster onePending) echoed { currtime := 1000001, commit := { now := 1000001 } } := by
  refine ⟨rfl, fun drops => ?_⟩
  have invariant := (emptyStore_emptyMaster.run_consistent onePending).invariant
  have bound : (Run.final serveStep emptyMaster onePending).maindb.get? (parAvionKey 4) ≠ none := by
    decide +kernel
  have marks := (dropsMarked_iff invariant echoed _).mp drops
  obtain ⟨⟨done, member, _, sent⟩, _⟩ := marks _ (List.mem_singleton_self _) bound
  obtain rfl := List.mem_singleton.mp member
  contradiction

theorem drops_iff_onePending :
    DropsMarked (Run.final serveStep emptyMaster onePending) echoed { currtime := 1000001, commit := { now := 1000001 } } ↔
      MarksNamed (Run.final serveStep emptyMaster onePending) echoed
        { currtime := 1000001, commit := { now := 1000001 } } :=
  (drops_iff emptyStore_emptyMaster onePending).1 _ _

end Identt.Hrpc
