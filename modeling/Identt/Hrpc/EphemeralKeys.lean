import Identt.Hrpc.CacheFailures
import Identt.Hrpc.Submissions
import Identt.Store.PubKeyService

/-! # The short-lived keys of invites

Every invite gets a key of its own, which is announced in its answer with the address at which anyone can ask whether
it is valid. The key is kept in a table that nothing else writes, so that what is valid is what was announced.
-/

namespace Identt.Hrpc

open Store Query ReadM StoreTrans InviteService

/-- The answer to an invite announces the key. -/
def Announces (k : Bytes) (st : SharedTable) (label : ServeStep) : Prop :=
  ∃ data reply, label.1 = .storeInvite data ∧ (serve st label.1 label.2).1 = .ok (.storeInvite reply) ∧
    reply.invres.publicKeys.getLast?.map PubKeyRetT.publicKey = some k

/-- The environment's public key is one of a pair that libsodium made. -/
def Generated (env : ActionEnv) : Prop := ∃ key : Crypto.Ed25519, key.pubkey.length = 32 ∧ env.publicKey = key.getPublicKey

theorem Generated.length {env : ActionEnv} (generated : Generated env) : env.publicKey.length = 43 := by
  obtain ⟨key, length, same⟩ := generated
  rw [same, Crypto.Ed25519.getPublicKey, b64EncodeStrip_length, length]

/-- A key is stored. -/
def HasPublicKey (keys : ℕ → Option EphemeralPublicKeyT) (k : Bytes) : Prop :=
  ∃ n key, keys n = some key ∧ key.publicKey = k

theorem hasPublicKey_update {keys : ℕ → Option EphemeralPublicKeyT} {n : ℕ} (free : keys n = none)
    (key : EphemeralPublicKeyT) (k : Bytes) :
    HasPublicKey (Function.update keys n (some key)) k ↔ HasPublicKey keys k ∨ key.publicKey = k := by
  constructor
  · rintro ⟨m, other, has, rfl⟩
    rw [Function.update_apply] at has
    split at has
    · exact .inr (congrArg _ (Option.some.inj has))
    · exact .inl ⟨m, other, has, rfl⟩
  · rintro (⟨m, other, has, rfl⟩ | rfl)
    · refine ⟨m, other, ?_, rfl⟩
      rw [Function.update_of_ne, has]
      rintro rfl
      rw [free] at has
      contradiction
    · exact ⟨n, key, Function.update_self .., rfl⟩

theorem publicKey_inj {key key' : EphemeralPublicKeyT} :
    ephemeralPublicKeyTable.getKey key .uEphemeralPublicKeyPublicKey false =
      ephemeralPublicKeyTable.getKey key' .uEphemeralPublicKeyPublicKey false ↔ key.publicKey = key'.publicKey :=
  ⟨List.append_cancel_left, fun same => by simp only [ephemeralPublicKeyTable, EphemeralPublicKeyT.getKey, same]⟩

/-- Asking whether a key is valid never fails, and tells whether it is stored. -/
theorem getEphemeralValid_iff {st : SharedTable} (invariant : TableInvariant st.maindb) (k : Bytes) :
    ∃ valid, PubKeyService.getEphemeralValidAction st { publicKey := k } = .ok valid ∧
      (valid = true ↔ HasPublicKey (worldOf st.maindb .ephemeralPublicKey) k) := by
  obtain ⟨⟨found, record⟩, lookup, looked⟩ := (invariant .ephemeralPublicKey).getOne_total
    (List.mem_singleton_self KeyTypeE.uEphemeralPublicKeyPublicKey) { publicKey := k }
  refine ⟨found, ?_, ?_⟩
  · rw [PubKeyService.getEphemeralValidAction, show ephemeralPublicKeyTable.getOne st.maindb { publicKey := k }
      .uEphemeralPublicKeyPublicKey = .ok (found, record) from lookup]
    rfl
  · cases looked with
    | found n record has same => exact iff_of_true rfl ⟨n, record, has, publicKey_inj.mp same⟩
    | absent none =>
      refine iff_of_false (by decide) ?_
      rintro ⟨n, record, has, same⟩
      exact none n record has (publicKey_inj.mpr same)

section Cache

/-- A new record gets through the cache if none of its keys is as long as a primary key. -/
theorem cachable_new {T : Type} {table : StoreTable T} {record : T}
    (lengths : ∀ keytype ∈ table.secondaryKeys, (table.getKey record keytype false).length ≠ keyIdLen + nodeLen) :
    StoreCache.Cachable (table.recordItems none record) := by
  rw [StoreTable.recordItems, cachable_append, and_iff_left (cachable_primary _ _ _ _), cachable_flatMap]
  intro keytype member
  rw [cachable_keyItems_iff member]
  exact fun length => (lengths keytype member length).elim

/-- Keys that end in an identifier are longer. -/
theorem inviteTokenKey_length (record : InviteTokenT) (keytype : KeyTypeE)
    (member : keytype ∈ inviteTokenTable.secondaryKeys) :
    (inviteTokenTable.getKey record keytype false).length ≠ keyIdLen + nodeLen := by
  have digits : nodeLen ≤ (hex nodeLen record.id).length := by
    rw [hex, List.length_map]
    exact Radix.numeral_length_ge ..
  have cases : keytype = .iInviteTokenMediumAddress ∨ keytype = .iInviteTokenToken := by
    simpa [StoreTable.secondaryKeys, inviteTokenTable] using member
  rcases cases with rfl | rfl <;>
  · simp only [inviteTokenTable, InviteTokenT.getKey, Bool.false_eq_true, if_false, encodeSecondaryKey, joinParts,
      KeyPart.format, List.length_append, encodeKeyType_length, List.length_cons, keyIdLen]
    omega

theorem ephemeralKey_length {record : EphemeralPublicKeyT} (length : record.publicKey.length = 43) (keytype : KeyTypeE)
    (member : keytype ∈ ephemeralPublicKeyTable.secondaryKeys) :
    (ephemeralPublicKeyTable.getKey record keytype false).length ≠ keyIdLen + nodeLen := by
  obtain rfl : keytype = .uEphemeralPublicKeyPublicKey := List.mem_singleton.mp member
  simp only [ephemeralPublicKeyTable, EphemeralPublicKeyT.getKey, encodeSecondaryKey, joinParts, KeyPart.format,
    List.length_append, encodeKeyType_length, length, keyIdLen, nodeLen]
  omega

end Cache

section Served

variable {st : SharedTable} {env : ActionEnv}

/-- An invite that gets through to its commit: what it writes, what it is answered, and that its key is new. -/
theorem storeInvite_details (consistent : Consistent st) {data : StoreInviteDataT} {prepared : Prepared MasterRequest}
    {counter : ℕ} (gives : Gives ((MasterRequest.storeInvite data).read st env) st.maincounter prepared counter) :
    ∃ transaction, prepared = ⟨some transaction, fun _ => .ok (.storeInvite (storeInviteReply st env data))⟩ ∧
      Built st.maindb transaction [.add .inviteToken (inviteToken (st.maincounter + 1) env data.invqry),
        .add .ephemeralPublicKey (ephemeralKey (st.maincounter + 2) env),
        .add .parAvion (inviteMail (st.maincounter + 3) env data.invqry)] ∧
      ¬ HasPublicKey (worldOf st.maindb .ephemeralPublicKey) env.publicKey := by
  have invariant := consistent.invariant
  simp only [MasterRequest.read, storeInviteAction, gives_bind, gives_lift, gives_getNext, gives_pure] at gives
  -- the checks, then each record with the identifier that it takes
  obtain ⟨_, _, ⟨_, _, ⟨_, rfl⟩, _, _, ⟨_, rfl⟩, _, _, ⟨_, rfl⟩, _, _, ⟨_, rfl⟩, gives⟩, rfl, rfl⟩ := gives
  obtain ⟨_, _, ⟨rfl, rfl⟩, first, _, ⟨storedToken, rfl⟩, gives⟩ := gives
  obtain ⟨⟨found, known⟩, _, ⟨lookup, rfl⟩, _, _, ⟨isNew, rfl⟩, _, _, ⟨rfl, rfl⟩, second, _, ⟨storedKey, rfl⟩,
    gives⟩ := gives
  obtain ⟨_, _, ⟨rfl, rfl⟩, third, _, ⟨storedMail, rfl⟩, rfl, rfl⟩ := gives
  have built := (((Built.start _).insert .inviteToken invariant storedToken List.not_mem_nil).insert
    .ephemeralPublicKey invariant storedKey (by simp [TableOp.name])).insert .parAvion invariant storedMail
    (by simp [TableOp.name])
  refine ⟨_, rfl, built, ?_⟩
  obtain rfl : found = false := by simpa [require] using isNew
  cases (invariant .ephemeralPublicKey).lookedUp (List.mem_singleton_self _) lookup with
  | absent none =>
    rintro ⟨n, record, has, same⟩
    exact none n record has (publicKey_inj.mpr same)

/-- The cache gets through what an invite writes. -/
theorem cacheAccepts_invite (consistent : Consistent st) (generated : Generated env) {data : StoreInviteDataT}
    {transaction : TransactionT}
    (built : Built st.maindb transaction [.add .inviteToken (inviteToken (st.maincounter + 1) env data.invqry),
      .add .ephemeralPublicKey (ephemeralKey (st.maincounter + 2) env),
      .add .parAvion (inviteMail (st.maincounter + 3) env data.invqry)]) : CacheAccepts st transaction := by
  intro _
  have free (name : TableName) (offset : ℕ) (positive : 0 < offset) :
      worldOf st.maindb name (st.maincounter + offset) = none := consistent.numbered.free name (by omega)
  rw [built.items]
  simp only [List.flatMap_cons, List.flatMap_nil, List.append_nil, TableOp.items, cachable_append]
  refine ⟨?_, ?_, ?_⟩
  · change StoreCache.Cachable (inviteTokenTable.recordItems (worldOf st.maindb .inviteToken (st.maincounter + 1)) _)
    rw [free .inviteToken 1 (by decide)]
    exact cachable_new (inviteTokenKey_length _)
  · change StoreCache.Cachable
      (ephemeralPublicKeyTable.recordItems (worldOf st.maindb .ephemeralPublicKey (st.maincounter + 2)) _)
    rw [free .ephemeralPublicKey 2 (by decide)]
    exact cachable_new (ephemeralKey_length generated.length)
  · change StoreCache.Cachable (parAvionTable.recordItems (worldOf st.maindb .parAvion (st.maincounter + 3)) _)
    rw [free .parAvion 3 (by decide)]
    exact cachable_new fun _ member => (List.not_mem_nil member).elim

/-- A request whose first half fails writes nothing. -/
theorem serve_maindb_of_stuck {request : MasterRequest}
    (stuck : ∀ prepared counter, ¬ Gives (request.read st env) st.maincounter prepared counter) :
    (serve st request env).2.maindb = st.maindb := by
  rw [serve, runAction]
  split
  · next prepared counter ran => exact (stuck prepared counter ran).elim
  · rfl

/-- What becomes of the stored keys: nothing, and none is announced, or one that is new is stored and announced. -/
inductive KeysStep (st : SharedTable) (label : ServeStep) : (ℕ → Option EphemeralPublicKeyT) → Prop
  | silent (quiet : ∀ k, ¬ Announces k st label) : KeysStep st label (worldOf st.maindb .ephemeralPublicKey)
  | made {n : ℕ} {key : EphemeralPublicKeyT} (free : worldOf st.maindb .ephemeralPublicKey n = none)
      (isNew : ¬ HasPublicKey (worldOf st.maindb .ephemeralPublicKey) key.publicKey)
      (announces : ∀ k, Announces k st label ↔ key.publicKey = k) :
      KeysStep st label (Function.update (worldOf st.maindb .ephemeralPublicKey) n (some key))

theorem serve_keysStep (consistent : Consistent st) (label : ServeStep) (generated : Generated label.2) :
    KeysStep st label (worldOf (serveStep st label).maindb .ephemeralPublicKey) := by
  have invariant := consistent.invariant
  obtain ⟨request, env⟩ := label
  by_cases invites : ∃ data, request = .storeInvite data
  · obtain ⟨data, rfl⟩ := invites
    by_cases through : ∃ prepared counter,
        Gives ((MasterRequest.storeInvite data).read st env) st.maincounter prepared counter
    · obtain ⟨prepared, counter, gives⟩ := through
      obtain ⟨transaction, rfl, built, isNew⟩ := storeInvite_details consistent gives
      have nonempty := built.item_ne_nil (List.mem_cons_self ..)
      have after := (serve_of_gives invariant gives rfl built).2
      have announced (k : Bytes) : Announces k st (.storeInvite data, env) ↔
          env.publicKey = k ∧ env.commit.logPut = true ∧ env.commit.dataWrite = true := by
        have last : (storeInviteReply st env data).invres.publicKeys.getLast?.map PubKeyRetT.publicKey =
            some env.publicKey := by simp [storeInviteReply]
        constructor
        · rintro ⟨_, reply, ⟨⟩, ok, isLast⟩
          obtain ⟨replied, logged, written, _⟩ := (serve_ok_iff gives nonempty).mp ok
          obtain rfl := MasterRequest.storeInvite.inj replied
          exact ⟨Option.some.inj (last.symm.trans isLast), logged, written⟩
        · rintro ⟨rfl, logged, written⟩
          exact ⟨data, _, rfl, (serve_ok_iff gives nonempty).mpr
            ⟨rfl, logged, written, cacheAccepts_invite consistent generated built⟩, last⟩
      cases written : env.commit.logPut && env.commit.dataWrite with
      | true =>
        rw [if_pos written] at after
        rw [serveStep, ← after.world_eq, List.foldl_cons, List.foldl_cons, List.foldl_cons, List.foldl_nil,
          TableOp.apply_of_ne _ _ (by simp [TableOp.name]), apply_add_self,
          TableOp.apply_of_ne _ _ (by simp [TableOp.name])]
        refine .made (consistent.numbered.free .ephemeralPublicKey (Nat.lt_add_of_pos_right (by decide))) isNew fun k => ?_
        rw [announced, ← Bool.and_eq_true, written]
        exact and_iff_left rfl
      | false =>
        rw [if_neg (by simp [written])] at after
        rw [serveStep, ← after.world_eq]
        refine .silent fun k announces => ?_
        have both := ((announced k).mp announces).2
        rw [← Bool.and_eq_true, written] at both
        contradiction
    · rw [serveStep, serve_maindb_of_stuck fun prepared counter gives => through ⟨prepared, counter, gives⟩]
      refine .silent ?_
      rintro k ⟨_, reply, _, answered, _⟩
      exact through (gives_of_serve_ok answered)
  · have kept : worldOf (serve st request env).2.maindb .ephemeralPublicKey = worldOf st.maindb .ephemeralPublicKey := by
      obtain ⟨_, same | ⟨ops, writes, _, _, represents⟩⟩ := serve_cases invariant request env
      · rw [← same.world_eq]
      · rw [← represents.world_eq]
        apply writes.frame
        intro member
        cases request with
        | storeInvite data => exact invites ⟨data, rfl⟩
        | requestToken | submitToken | getValidated3pid | bind3pid | pending | getAccessKey | setBlobData =>
          simp [MasterRequest.tables] at member
    rw [serveStep, kept]
    refine .silent ?_
    rintro k ⟨data, _, isInvite, _⟩
    exact invites ⟨data, isInvite⟩

end Served

section History

variable (start : SharedTable)

/-- The run announced the key. -/
def Announced (past : List ServeStep) (k : Bytes) : Prop := ∃ j, Run.Occurs serveStep (Announces k) start past j

/-- What is stored is what was announced, and no key was announced twice. -/
structure KeysAnnounced (past : List ServeStep) : Prop where
  consistent : Consistent (Run.final serveStep start past)
  stored_iff : ∀ k, HasPublicKey (worldOf (Run.final serveStep start past).maindb .ephemeralPublicKey) k ↔
    Announced start past k
  once : ∀ k i j, Run.Occurs serveStep (Announces k) start past i → Run.Occurs serveStep (Announces k) start past j → i = j

variable {start}

theorem announced_concat {past : List ServeStep} {label : ServeStep} {k : Bytes} :
    Announced start (past ++ [label]) k ↔ Announced start past k ∨ Announces k (Run.final serveStep start past) label := by
  constructor
  · rintro ⟨j, occurs⟩
    rcases occurs.cases_append with earlier | ⟨_, here⟩
    · exact .inl ⟨j, earlier⟩
    · exact .inr here
  · rintro (⟨j, earlier⟩ | here)
    · exact ⟨j, earlier.append [label]⟩
    · exact ⟨past.length, Run.occurs_last.mpr here⟩

/-- What is announced now was not announced before. -/
theorem KeysAnnounced.once_step {past : List ServeStep} (keys : KeysAnnounced start past) {label : ServeStep}
    (isNew : ∀ k, Announces k (Run.final serveStep start past) label → ¬ Announced start past k) (k : Bytes) (i j : ℕ)
    (first : Run.Occurs serveStep (Announces k) start (past ++ [label]) i)
    (second : Run.Occurs serveStep (Announces k) start (past ++ [label]) j) : i = j := by
  rcases first.cases_append with earlier | ⟨rfl, here⟩ <;> rcases second.cases_append with earlier' | ⟨rfl, here'⟩
  · exact keys.once k i j earlier earlier'
  · exact (isNew k here' ⟨i, earlier⟩).elim
  · exact (isNew k here ⟨j, earlier'⟩).elim
  · rfl

theorem KeysAnnounced.step {past : List ServeStep} (keys : KeysAnnounced start past) {label : ServeStep}
    (generated : Generated label.2) : KeysAnnounced start (past ++ [label]) := by
  have consistent := keys.consistent.serve label.1 label.2
  have step := serve_keysStep keys.consistent label generated
  refine ⟨?_, fun k => ?_, keys.once_step fun k announces => ?_⟩
  · rw [Run.final_concat]
    exact consistent
  · rw [announced_concat, Run.final_concat]
    generalize worldOf (serveStep (Run.final serveStep start past) label).maindb .ephemeralPublicKey = after at step ⊢
    cases step with
    | silent quiet => rw [or_iff_left (quiet k), keys.stored_iff]
    | made free isNew announces => rw [hasPublicKey_update free, keys.stored_iff, announces]
  · rw [← keys.stored_iff]
    generalize worldOf (serveStep (Run.final serveStep start past) label).maindb .ephemeralPublicKey = after at step
    cases step with
    | silent quiet => exact (quiet k announces).elim
    | made free isNew announced => rwa [← (announced k).mp announces]

theorem keysAnnounced_run (empty : EmptyStore start) {past : List ServeStep}
    (generated : ∀ label ∈ past, Generated label.2) : KeysAnnounced start past := by
  induction past using List.reverseRecOn with
  | nil =>
    have nothing (P : SharedTable → ServeStep → Prop) (j : ℕ) : ¬ Run.Occurs serveStep P start [] j :=
      fun occurs => Nat.not_lt_zero j occurs.lt
    refine ⟨empty.consistent, fun k => iff_of_false ?_ fun ⟨j, occurs⟩ => nothing _ j occurs,
      fun k i _ occurs => (nothing _ i occurs).elim⟩
    rintro ⟨n, key, has, _⟩
    exact empty.nothing .ephemeralPublicKey n key has
  | append_singleton past label ih =>
    exact (ih fun other member => generated other (List.mem_append_left _ member)).step
      (generated label (List.mem_append_right _ (List.mem_singleton_self _)))

/-- In every run of requests on an empty store, asking whether a key is valid never fails, and the keys that are valid
are at each moment those that answers to invites announced before; none of them is announced twice. -/
theorem ephemeral_valid_iff_announced (empty : EmptyStore start) {labels : List ServeStep}
    (generated : ∀ label ∈ labels, Generated label.2) (i : ℕ) (k : Bytes) :
    (∃ valid, PubKeyService.getEphemeralValidAction (Run.final serveStep start (labels.take i)) { publicKey := k } =
      .ok valid ∧ (valid = true ↔ Announced start (labels.take i) k)) ∧
    ∀ first second, Run.Occurs serveStep (Announces k) start labels first →
      Run.Occurs serveStep (Announces k) start labels second → first = second := by
  have keys := keysAnnounced_run empty fun label member => generated label (List.mem_of_mem_take (i := i) member)
  refine ⟨?_, (keysAnnounced_run empty generated).once k⟩
  obtain ⟨valid, answer, isStored⟩ := getEphemeralValid_iff keys.consistent.invariant k
  exact ⟨valid, answer, isStored.trans (keys.stored_iff k)⟩

end History

/-- A key of zeros. -/
def zeroKey : Crypto.Ed25519 := { pubkey := List.replicate 32 0 }

/-- Two invites get the same key, so that the second one is refused. -/
def sameKeyTwice : List ServeStep :=
  let env : ActionEnv := { currtime := 5, commit := { now := 5 }, publicKey := zeroKey.getPublicKey }
  [(.storeInvite {}, { env with uuid := ascii "t" }), (.storeInvite {}, { env with uuid := ascii "u" })]

theorem ephemeral_valid_iff_announced_sameKeyTwice :
    PubKeyService.getEphemeralValidAction (Run.final serveStep emptyMaster sameKeyTwice)
      { publicKey := zeroKey.getPublicKey } = .ok true ∧
    Announced emptyMaster sameKeyTwice zeroKey.getPublicKey ∧
    ¬ Run.Occurs serveStep (Announces zeroKey.getPublicKey) emptyMaster sameKeyTwice 1 := by
  have generated : ∀ label ∈ sameKeyTwice, Generated label.2 := by
    simp only [sameKeyTwice, List.forall_mem_cons, List.not_mem_nil, false_implies, implies_true, and_true]
    exact ⟨⟨zeroKey, by decide, rfl⟩, zeroKey, by decide, rfl⟩
  obtain ⟨⟨valid, answer, told⟩, once⟩ :=
    ephemeral_valid_iff_announced emptyStore_emptyMaster generated 2 zeroKey.getPublicKey
  have isValid : PubKeyService.getEphemeralValidAction (Run.final serveStep emptyMaster sameKeyTwice)
      { publicKey := zeroKey.getPublicKey } = .ok true := by decide +kernel
  obtain rfl : valid = true := Except.ok.inj (answer.symm.trans isValid)
  have first : Run.Occurs serveStep (Announces zeroKey.getPublicKey) emptyMaster sameKeyTwice 0 := by
    have answered : (serve emptyMaster sameKeyTwice[0].1 sameKeyTwice[0].2).1 =
      .ok (.storeInvite (storeInviteReply emptyMaster sameKeyTwice[0].2 {})) := by decide +kernel
    exact ⟨_, rfl, {}, _, rfl, answered, rfl⟩
  exact ⟨isValid, told.mp rfl, fun second => absurd (once 0 1 first second) (by decide)⟩

end Identt.Hrpc
