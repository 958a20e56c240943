import Identt.Hrpc.Bindings
import Identt.Store.BindSigning

/-! # Who is told of a binding

A binding tells the invites that waited for its address, and marks them as sent. They are found by the
leading text of an index, and listed under the session's address, which is listed only once; so the
notification is right as long as at most one invite is indexed under that text. What it lists is read out of
the signed text again.
-/

namespace Identt.Hrpc

open Store Query ReadM StoreTrans ThreePidService SignedJson

/-- The transaction that serving a request commits, if it gets that far. -/
def committed (st : SharedTable) (label : ServeStep) : Option TransactionT :=
  match (label.1.read st label.2).run st.maincounter with
  | (.ok prepared, _) => prepared.trans
  | (.error _, _) => none

/-- The invite waits for the session's address. -/
def WaitsFor (session : ValidationSessionT) (token : InviteTokenT) : Prop :=
  token.medium = session.medium ∧ token.address = session.address

instance (session : ValidationSessionT) (token : InviteTokenT) : Decidable (WaitsFor session token) :=
  inferInstanceAs (Decidable (_ ∧ _))

/-- The invite is listed as this object. -/
def Names {D : Type} (token : InviteTokenT) (v : Json D) : Prop :=
  HasTexts (listedTexts token.medium token.address token.roomId token.sender token.token) v

/-- What a binding owes to the invites: one entry for each that waits for its address and for no other, and the
time written to exactly these. -/
structure Notifies {D : Type} (st : SharedTable) (label : ServeStep) (session : ValidationSessionT)
    (invites : List (Json D)) : Prop where
  listed : ∃ ids : List ℕ, ids.Nodup ∧
    (∀ n, n ∈ ids ↔ ∃ token, worldOf st.maindb .inviteToken n = some token ∧ WaitsFor session token) ∧
    List.Forall₂ (fun n v => ∃ token, worldOf st.maindb .inviteToken n = some token ∧ Names token v) ids invites
  written : ∃ transaction, committed st label = some transaction ∧ ∀ n token,
    ⟨encodePrimaryKey .kInviteToken n, .inviteToken token, false⟩ ∈ transaction.item ↔
      ∃ old, worldOf st.maindb .inviteToken n = some old ∧ WaitsFor session old ∧
        token = { old with sentTs := label.2.currtime }
  after : ∀ n, worldOf (serveStep st label).maindb .inviteToken n = (worldOf st.maindb .inviteToken n).map
    fun token : InviteTokenT => if WaitsFor session token then { token with sentTs := label.2.currtime } else token

/-- The invite is indexed under a text that begins with the session's joined medium and address. -/
def Begins (session : ValidationSessionT) (token : InviteTokenT) : Prop :=
  NonUniqueIndex.inviteTokenMediumAddress.referText
      ({ medium := session.medium, address := session.address } : InviteTokenT) <+:
    NonUniqueIndex.inviteTokenMediumAddress.indexText token

theorem WaitsFor.begins {session : ValidationSessionT} {token : InviteTokenT} (waits : WaitsFor session token) :
    Begins session token := by
  refine NonUniqueIndex.referText_prefix ?_
  simp only [NonUniqueIndex.fields, waits.1, waits.2]

/-- At most one stored invite is indexed under a text that begins with the session's joined medium and address,
and that one waits for the very address. -/
def AtMostOne (world : World) (session : ValidationSessionT) : Prop :=
  ∀ m token, world .inviteToken m = some token → Begins session token → WaitsFor session token ∧
    ∀ n other, world .inviteToken n = some other → Begins session other → n = m

/-- The tokens that a binding finds: the first ones of all that are indexed under such a text. -/
structure Found (records : ℕ → Option InviteTokenT) (session : ValidationSessionT) (scan : List ℕ)
    (tokens : List InviteTokenT) : Prop where
  nodup : scan.Nodup
  inScan : ∀ n, n ∈ scan ↔ ∃ token, records n = some token ∧ Begins session token
  inTokens : ∀ token, token ∈ tokens ↔ ∃ n ∈ scan.take 99999, records n = some token
  numbered : ∀ n token, records n = some token → token.id = n
  distinct : (tokens.map InviteTokenT.id).Nodup

theorem tokens_found {st : SharedTable} (invariant : TableInvariant st.maindb) {session : ValidationSessionT} {found : Bool}
    {tokenMap : OrderedMap ℕ InviteTokenT}
    (call : inviteTokenTable.getMany st.maindb { medium := session.medium, address := session.address } .empty
      .iInviteTokenMediumAddress 0 99999 = .ok (found, tokenMap)) :
    ∃ scan, Found (worldOf st.maindb .inviteToken) session scan (tokenMap.entries.map Prod.snd) := by
  obtain ⟨scan, nodup, inScan, _, answer⟩ := @NonUniqueIndex.getMany_window .inviteTokenMediumAddress st.maindb invariant
    ({ medium := session.medium, address := session.address } : InviteTokenT)
  obtain ⟨found', map, result, lookup⟩ := answer 0 99999 (by omega)
  cases call.symm.trans result
  have nonempty : NonUniqueIndex.inviteTokenMediumAddress.referText
      ({ medium := session.medium, address := session.address } : InviteTokenT) ≠ [] :=
    NonUniqueIndex.joinParts_pair_ne_nil _ _
  have entry (n : ℕ) (token : InviteTokenT) : (n, token) ∈ tokenMap.entries ↔
      n ∈ scan.take 99999 ∧ worldOf st.maindb .inviteToken n = some token := by
    rw [← OrderedMap.get?_eq_some_iff]
    have answer := lookup n
    rw [if_neg nonempty, List.drop_zero] at answer
    rw [show tokenMap.get? n = _ from answer]
    split
    · next inWindow => exact ⟨fun has => ⟨inWindow, has⟩, And.right⟩
    · next outside => exact ⟨nofun, fun has => (outside has.1).elim⟩
  refine ⟨scan, nodup, inScan, fun token => ?_, (invariant .inviteToken).id_eq,
    (inviteTokens_stored invariant (by omega) call).2⟩
  constructor
  · intro member
    obtain ⟨⟨n, token⟩, inMap, rfl⟩ := List.mem_map.mp member
    exact ⟨n, (entry n token).mp inMap⟩
  · rintro ⟨n, inWindow, has⟩
    exact List.mem_map.mpr ⟨(n, token), (entry n token).mpr ⟨inWindow, has⟩, rfl⟩

/-- A list without repetitions whose first elements are all the same has at most one. -/
theorem eq_of_window {scan : List ℕ} (nodup : scan.Nodup) {limit : ℕ} (two : 2 ≤ limit)
    (same : ∀ m ∈ scan.take limit, ∀ n ∈ scan.take limit, m = n) : scan.take limit = scan := by
  match scan, nodup with
  | [], _ => rw [List.take_nil]
  | [m], _ =>
    have short : [m].length ≤ limit := by
      rw [List.length_singleton]
      omega
    exact List.take_of_length_le short
  | m :: n :: rest, nodup =>
    obtain ⟨limit, rfl⟩ := Nat.exists_eq_add_of_le two
    rw [Nat.add_comm, List.take_succ_cons, List.take_succ_cons] at same
    have equal := same m (List.mem_cons_self ..) n (List.mem_cons_of_mem _ (List.mem_cons_self ..))
    exact ((List.nodup_cons.mp nodup).1 (equal ▸ List.mem_cons_self ..)).elim

namespace Found

variable {records : ℕ → Option InviteTokenT} {session : ValidationSessionT} {scan : List ℕ} {tokens : List InviteTokenT}

theorem stored (found : Found records session scan tokens) {token : InviteTokenT} (member : token ∈ tokens) :
    records token.id = some token := by
  obtain ⟨n, _, has⟩ := (found.inTokens token).mp member
  rw [found.numbered n token has]
  exact has

/-- If all tokens that are found wait and are the first one, at most one is indexed under such a text. -/
theorem atMostOne {world : World} (found : Found (world .inviteToken) session scan tokens)
    (waits : ∀ token ∈ tokens, WaitsFor session token)
    (first : ∀ token ∈ tokens, tokens.head?.map InviteTokenT.id = some token.id) : AtMostOne world session := by
  have inWindow {n : ℕ} (window : n ∈ scan.take 99999) : ∃ token ∈ tokens, world .inviteToken n = some token ∧
      tokens.head?.map InviteTokenT.id = some n := by
    obtain ⟨token, has, _⟩ := (found.inScan n).mp (List.mem_of_mem_take window)
    have member := (found.inTokens token).mpr ⟨n, window, has⟩
    exact ⟨token, member, has, (first token member).trans (congrArg some (found.numbered n token has))⟩
  have all : scan.take 99999 = scan := by
    refine eq_of_window found.nodup (by omega) fun m inM n inN => ?_
    obtain ⟨_, _, _, firstM⟩ := inWindow inM
    obtain ⟨_, _, _, firstN⟩ := inWindow inN
    exact Option.some.inj (firstM.symm.trans firstN)
  rw [all] at inWindow
  intro m token has begins
  obtain ⟨_, member, has', firstM⟩ := inWindow ((found.inScan m).mpr ⟨token, has, begins⟩)
  obtain rfl := Option.some.inj (has.symm.trans has')
  refine ⟨waits token member, fun n other hasOther beginsOther => ?_⟩
  obtain ⟨_, _, _, firstN⟩ := inWindow ((found.inScan n).mpr ⟨other, hasOther, beginsOther⟩)
  exact Option.some.inj (firstN.symm.trans firstM)

/-- If there is no more than one entry for tokens that all wait, they are all the first one. -/
theorem head_of_short (found : Found records session scan tokens) (waits : ∀ token ∈ tokens, WaitsFor session token)
    {ids : List ℕ} (inIds : ∀ n, n ∈ ids ↔ ∃ token, records n = some token ∧ WaitsFor session token)
    (short : ids.length ≤ 1) {token : InviteTokenT} (member : token ∈ tokens) :
    tokens.head?.map InviteTokenT.id = some token.id := by
  have has {token : InviteTokenT} (member : token ∈ tokens) : token.id ∈ ids :=
    (inIds token.id).mpr ⟨token, found.stored member, waits token member⟩
  obtain ⟨id, same⟩ := List.length_eq_one_iff.mp (le_antisymm short (List.length_pos_of_mem (has member)))
  cases tokens with
  | nil => exact (List.not_mem_nil member).elim
  | cons head rest =>
    have first := has (List.mem_cons_self ..)
    have other := has member
    rw [same, List.mem_singleton] at first other
    rw [List.head?_cons, Option.map_some, first, other]

section Alone

variable {world : World} (found : Found (world .inviteToken) session scan tokens) (alone : AtMostOne world session)
include found alone

theorem single {m n : ℕ} (inM : m ∈ scan) (inN : n ∈ scan) : m = n := by
  obtain ⟨left, hasLeft, beginsLeft⟩ := (found.inScan m).mp inM
  obtain ⟨right, hasRight, beginsRight⟩ := (found.inScan n).mp inN
  exact (alone n right hasRight beginsRight).2 m left hasLeft beginsLeft

/-- The tokens that are found are those that wait for the address. -/
theorem waiting (n : ℕ) (token : InviteTokenT) (has : world .inviteToken n = some token) :
    token ∈ tokens ↔ WaitsFor session token := by
  have all : scan.take 99999 = scan := eq_of_window found.nodup (by omega) fun m inM n inN =>
    found.single alone (List.mem_of_mem_take inM) (List.mem_of_mem_take inN)
  rw [found.inTokens, all]
  constructor
  · rintro ⟨m, inM, hasM⟩
    obtain ⟨other, hasOther, begins⟩ := (found.inScan m).mp inM
    obtain rfl := Option.some.inj (hasM.symm.trans hasOther)
    exact (alone m token hasM begins).1
  · exact fun waits => ⟨n, (found.inScan n).mpr ⟨token, has, waits.begins⟩, has⟩

theorem length_le_one : tokens.length ≤ 1 := by
  match tokens, found with
  | [], _ | [_], _ => simp
  | left :: right :: rest, found =>
    obtain ⟨m, inM, hasM⟩ := (found.inTokens left).mp (List.mem_cons_self ..)
    obtain ⟨n, inN, hasN⟩ := (found.inTokens right).mp (List.mem_cons_of_mem _ (List.mem_cons_self ..))
    have one := found.single alone (List.mem_of_mem_take inM) (List.mem_of_mem_take inN)
    have same : left.id = right.id := by rw [found.numbered m left hasM, found.numbered n right hasN, one]
    have distinct := found.distinct
    simp [same] at distinct

/-- Listing the first token that is found lists the tokens that wait. -/
theorem listed {D : Type} {invites : List (Json D)} (lists : List.Forall₂ Names (tokens.take 1) invites) :
    ∃ ids : List ℕ, ids.Nodup ∧
      (∀ n, n ∈ ids ↔ ∃ token, world .inviteToken n = some token ∧ WaitsFor session token) ∧
      List.Forall₂ (fun n v => ∃ token, world .inviteToken n = some token ∧ Names token v) ids invites := by
  have waiting := found.waiting alone
  rw [List.take_of_length_le (found.length_le_one alone)] at lists
  refine ⟨tokens.map InviteTokenT.id, found.distinct, fun n => ?_, ?_⟩
  · rw [List.mem_map]
    constructor
    · rintro ⟨token, member, rfl⟩
      exact ⟨token, found.stored member, (waiting _ token (found.stored member)).mp member⟩
    · rintro ⟨token, has, waits⟩
      exact ⟨token, (waiting n token has).mpr waits, found.numbered n token has⟩
  · rw [List.forall₂_map_left_iff]
    refine List.Forall₂.imp ?_ ((List.forall₂_and_left _ _).mpr ⟨fun token member => member, lists⟩)
    exact fun token v ⟨member, named⟩ => ⟨token, found.stored member, named⟩

/-- Writing the time to the tokens that are found writes it to the tokens that wait. -/
theorem foldl_sent (now : UInt64) (n : ℕ) :
    tokens.foldl (fun (records : ℕ → Option InviteTokenT) token =>
        Function.update records token.id (some { token with sentTs := now })) (world .inviteToken) n =
      (world .inviteToken n).map fun token : InviteTokenT =>
        if WaitsFor session token then { token with sentTs := now } else token := by
  have waiting := found.waiting alone
  match tokens, found, found.length_le_one alone with
  | [], _, _ =>
    cases has : world .inviteToken n with
    | none => simpa using has
    | some token =>
      have other : ¬ WaitsFor session token := fun waits => List.not_mem_nil ((waiting n token has).mpr waits)
      simp [has, other]
  | [sent], found, _ =>
    rw [List.foldl_cons, List.foldl_nil, Function.update_apply]
    split
    · next here =>
      have has := found.stored (List.mem_singleton_self _)
      rw [here, has, Option.map_some, if_pos ((waiting _ sent has).mp (List.mem_singleton_self _))]
    · next elsewhere =>
      cases has : world .inviteToken n with
      | none => rfl
      | some token =>
        have other : ¬ WaitsFor session token := by
          intro waits
          obtain rfl := List.mem_singleton.mp ((waiting n token has).mpr waits)
          exact elsewhere (found.numbered n token has).symm
        rw [Option.map_some, if_neg other]

end Alone

end Found

section Outcome

variable {db : DB} {session : ValidationSessionT} {now : UInt64} {transaction : TransactionT} {tokens : List InviteTokenT}
  {front back : List TableOp}

/-- The transaction writes the time to the tokens that were found. -/
theorem written_iff (built : Built db transaction
      (front ++ (tokens.map fun token => TableOp.add .inviteToken { token with sentTs := now }) ++ back))
    (others : .inviteToken ∉ (front ++ back).map TableOp.name) (n : ℕ) (token : InviteTokenT) :
    ⟨encodePrimaryKey .kInviteToken n, .inviteToken token, false⟩ ∈ transaction.item ↔
      ∃ old ∈ tokens, old.id = n ∧ token = { old with sentTs := now } := by
  have put (op : TableOp) : (⟨encodePrimaryKey .kInviteToken n, .inviteToken token, false⟩ : TransItemT) ∈
      op.items (worldOf db) ↔ op = .add .inviteToken token ∧ token.id = n :=
    @TableOp.put_mem_items_iff _ op .inviteToken token n
  rw [built.items, List.mem_flatMap]
  constructor
  · rintro ⟨op, member, inItems⟩
    obtain ⟨rfl, number⟩ := (put op).mp inItems
    have found : TableOp.add .inviteToken token ∈
        tokens.map fun token => TableOp.add .inviteToken { token with sentTs := now } := by
      by_contra missing
      refine others (List.mem_map.mpr ⟨.add .inviteToken token, ?_, rfl⟩)
      simp only [List.mem_append] at member ⊢
      rcases member with (inFront | inTokens) | inBack
      · exact .inl inFront
      · exact (missing inTokens).elim
      · exact .inr inBack
    obtain ⟨old, inTokens, same⟩ := List.mem_map.mp found
    cases same
    exact ⟨old, inTokens, number, rfl⟩
  · rintro ⟨old, inTokens, number, rfl⟩
    refine ⟨.add .inviteToken { old with sentTs := now }, ?_, (put _).mpr ⟨rfl, number⟩⟩
    simp only [List.mem_append]
    exact .inl (.inr (List.mem_map.mpr ⟨old, inTokens, rfl⟩))

/-- The tokens after such a transaction. -/
theorem tokens_after (others : .inviteToken ∉ (front ++ back).map TableOp.name) (world : World) :
    (front ++ (tokens.map fun token => TableOp.add .inviteToken { token with sentTs := now }) ++ back).foldl
        TableOp.apply world .inviteToken =
      tokens.foldl (fun (records : ℕ → Option InviteTokenT) token =>
        Function.update records token.id (some { token with sentTs := now }))
        (world .inviteToken) := by
  rw [List.map_append, List.mem_append, not_or] at others
  rw [List.foldl_append, foldl_apply_of_notMem others.2, List.foldl_append]
  rw [← foldl_apply_of_notMem others.1 world]
  generalize front.foldl TableOp.apply world = before
  induction tokens generalizing before with
  | nil => rfl
  | cons token rest ih =>
    rw [List.map_cons, List.foldl_cons, List.foldl_cons, ih, apply_add_self]
    rfl

end Outcome

theorem Usable.unique {world : World} {subtok : SubmitTokenT} {sid sid' : ℕ} {session session' : ValidationSessionT}
    (usable : Usable world subtok sid session) (usable' : Usable world subtok sid' session') : session = session' := by
  obtain rfl : sid = sid' := Except.ok.inj (usable.parsed.symm.trans usable'.parsed)
  exact Option.some.inj (usable.has.symm.trans usable'.has)

/-- A binding always writes an association. -/
theorem Writes.binds_localAssoc {world : World} {hostname : Bytes} {env : ActionEnv} {counter counter' : ℕ}
    {data : Bind3pidDataT} {ops : List TableOp}
    (writes : Writes world hostname env counter (.bind3pid data) ops counter') :
    ∃ assoc, TableOp.add .localAssoc assoc ∈ ops := by
  cases writes with
  | bind3pid => exact ⟨_, List.mem_append_left _ (List.mem_append_left _ (List.mem_cons_self ..))⟩

/-- A binding that succeeded: the tokens that it found and listed, and what it committed. -/
theorem bind3pid_succeeded {st : SharedTable} (invariant : TableInvariant st.maindb) {data reply : Bind3pidDataT}
    {env : ActionEnv} {sid : ℕ} {session : ValidationSessionT}
    (usable : Usable (worldOf st.maindb) data.subtok sid session)
    (answered : (serve st (.bind3pid data) env).1 = .ok (.bind3pid reply)) :
    ∃ found tokenMap signatures result transaction,
      inviteTokenTable.getMany st.maindb { medium := session.medium, address := session.address } .empty
        .iInviteTokenMediumAddress 0 99999 = .ok (found, tokenMap) ∧
      result.invites = ((tokenMap.entries.map Prod.snd).take 1).map (fun token =>
        inviteItem data.subtok.mxid { token with sentTs := env.currtime }) ∧
      env.signInvites st.hostname signatures result = .ok reply.output ∧
      committed st (.bind3pid data, env) = some transaction ∧
      (∀ n token, ⟨encodePrimaryKey .kInviteToken n, .inviteToken token, false⟩ ∈ transaction.item ↔
        ∃ old ∈ tokenMap.entries.map Prod.snd, old.id = n ∧ token = { old with sentTs := env.currtime }) ∧
      worldOf (serveStep st (.bind3pid data, env)).maindb .inviteToken =
        (tokenMap.entries.map Prod.snd).foldl (fun (records : ℕ → Option InviteTokenT) token =>
          Function.update records token.id (some { token with sentTs := env.currtime }))
          (worldOf st.maindb .inviteToken) := by
  obtain ⟨prepared, counter, gives⟩ := gives_of_serve_ok answered
  have read := gives
  simp only [MasterRequest.read, gives_bind, gives_pure] at gives
  obtain ⟨answer, _, gives, rfl, rfl⟩ := gives
  obtain ⟨sid', session', found, tokenMap, signatures, invites, output, transaction, front, back, usable', listed, isInvites, signed,
    rfl, others, built, writes⟩ := bind3pid_details invariant gives
  obtain rfl := usable.unique usable'
  obtain ⟨assoc, added⟩ := writes.binds_localAssoc
  rw [serve_eq_of_gives read] at answered
  obtain ⟨logged, written, replied⟩ := written_of_finish rfl (built.item_ne_nil added) answered
  cases replied
  obtain ⟨_, represents⟩ := serve_of_gives invariant read rfl built
  rw [logged, written, Bool.and_self, if_pos rfl] at represents
  refine ⟨found, tokenMap, signatures, _, transaction, listed, isInvites, signed, ?_, written_iff built others, ?_⟩
  · rw [committed, read]
    rfl
  · rw [serveStep, ← represents.world_eq]
    exact tokens_after others _

/-- What the signed notification lists: the first token that was found, with its texts. -/
theorem listed_first {D : Type} {codec : JsonCodec D} (roundTrips : codec.RoundTrips) {sodium : Crypto.Sodium}
    {keyring : KeyRing} {owner output mxid : Bytes} {signatures : SignatureListT} {result : ValidatedInviteT}
    {now : UInt64} {tokens : List InviteTokenT}
    (isInvites : result.invites = (tokens.take 1).map fun token => inviteItem mxid { token with sentTs := now })
    (signed : signInvites codec sodium keyring owner signatures result = .ok output) :
    List.Forall₂ Names (tokens.take 1) (invitesOf codec output) := by
  have lists := invitesOf_signInvites roundTrips signed
  rw [isInvites, List.forall₂_map_left_iff] at lists
  exact lists

/-- In every state that requests reach on an empty store, a binding that succeeds with the keys of the server tells
exactly the invites of its address, exactly if at most one stored invite is indexed under a text that begins with the
joined medium and address, and that one is for the address. -/
theorem notifies_iff_atMostOne {D : Type} {codec : JsonCodec D} (roundTrips : codec.RoundTrips)
    {sodium : Crypto.Sodium} {keyring : KeyRing} {start : SharedTable} (empty : EmptyStore start)
    (labels : List ServeStep) {data reply : Bind3pidDataT} {env : ActionEnv} {sid : ℕ} {session : ValidationSessionT}
    (usable : Usable (worldOf (Run.final serveStep start labels).maindb) data.subtok sid session)
    (answered : (serve (Run.final serveStep start labels) (.bind3pid data) (serverEnv codec sodium keyring env)).1 =
      .ok (.bind3pid reply)) :
    Notifies (Run.final serveStep start labels) (.bind3pid data, serverEnv codec sodium keyring env) session
        (invitesOf codec reply.output) ↔
      AtMostOne (worldOf (Run.final serveStep start labels).maindb) session := by
  have invariant := (empty.run_consistent labels).invariant
  generalize Run.final serveStep start labels = st at usable answered invariant ⊢
  obtain ⟨known, tokenMap, signatures, result, transaction, call, isInvites, signed, commits, written, after⟩ :=
    bind3pid_succeeded invariant usable answered
  obtain ⟨scan, found⟩ := tokens_found invariant call
  have lists := listed_first roundTrips isInvites signed
  generalize tokenMap.entries.map Prod.snd = tokens at found written after lists
  constructor
  · intro notifies
    obtain ⟨transaction', commits', writtenOnly⟩ := notifies.written
    obtain rfl := Option.some.inj (commits.symm.trans commits')
    have waits : ∀ token ∈ tokens, WaitsFor session token := by
      intro token member
      obtain ⟨old, hasOld, waits, _⟩ := (writtenOnly token.id _).mp ((written token.id _).mpr ⟨token, member, rfl, rfl⟩)
      obtain rfl : token = old := Option.some.inj ((found.stored member).symm.trans hasOld)
      exact waits
    -- every token that was found has an entry, but there is only one
    obtain ⟨ids, nodup, inIds, entries⟩ := notifies.listed
    have short : ids.length ≤ 1 := by
      rw [entries.length_eq, ← lists.length_eq]
      exact List.length_take_le ..
    exact found.atMostOne waits fun token member => found.head_of_short waits inIds short member
  · intro alone
    have waiting := found.waiting alone
    refine ⟨found.listed alone lists, ⟨transaction, commits, fun n token => ?_⟩, fun n => ?_⟩
    · rw [written n token]
      constructor
      · rintro ⟨old, member, rfl, rfl⟩
        exact ⟨old, found.stored member, (waiting _ old (found.stored member)).mp member, rfl⟩
      · rintro ⟨old, has, waits, rfl⟩
        exact ⟨old, (waiting n old has).mpr waits, found.numbered n old has, rfl⟩
    · rw [after]
      exact found.foldl_sent alone env.currtime n

def invite (roomId sender uuid key : String) (now : UInt64) : ServeStep :=
  (.storeInvite { invqry := { medium := ascii "email", address := ascii "a@x.com", roomId := ascii roomId, sender := ascii sender } },
    { currtime := now, commit := { now := now }, uuid := ascii uuid, publicKey := ascii key })

/-- Two users invite an address, and then somebody validates it. -/
def invitedTwice : List ServeStep :=
  [invite "!r:x" "@r:x" "t" "k" 1000000, invite "!s:x" "@s:x" "u" "l" 1000001,
    (tokenRequest "a@x.com" "q" 1, { currtime := 1000002, commit := { now := 1000002 } }),
    (.submitToken { subtok := { sid := ascii "8", clientSecret := ascii "q", token := ascii "111113" } },
      { currtime := 1000003, commit := { now := 1000003 } })]

/-- The session of the address. -/
def invitedSession : ValidationSessionT where
  id := 8
  medium := ascii "email"
  address := ascii "a@x.com"
  clientSecret := ascii "q"
  validated := 1
  mtime := 1000003

def bindInvited : Bind3pidDataT where
  subtok := { sid := ascii "8", clientSecret := ascii "q", mxid := ascii "@a:x" }

/-- The environment of the binding. -/
def bindEnv : ActionEnv := serverEnv compactJson exampleSodium exampleKeyring
  { currtime := 1000004, commit := { now := 1000004 } }

/-- The answer to the binding. -/
def boundReply : Bind3pidDataT :=
  match (serve (Run.final serveStep emptyMaster invitedTwice) (.bind3pid bindInvited) bindEnv).1 with
  | .ok (.bind3pid reply) => reply
  | _ => default

/-- The session, both invites and the answer to the binding, with one entry in its notification. -/
theorem stored_invitedTwice :
    worldOf (Run.final serveStep emptyMaster invitedTwice).maindb .validationSession 8 = some invitedSession ∧
    (∀ n ∈ [2, 5], (worldOf (Run.final serveStep emptyMaster invitedTwice).maindb .inviteToken n).map
      (fun token : InviteTokenT => (token.medium, token.address)) = some (ascii "email", ascii "a@x.com")) ∧
    (serve (Run.final serveStep emptyMaster invitedTwice) (.bind3pid bindInvited) bindEnv).1.toOption =
      some (.bind3pid boundReply) ∧ (invitesOf compactJson boundReply.output).length = 1 := by
  decide +kernel

theorem usable_invitedTwice :
    Usable (worldOf (Run.final serveStep emptyMaster invitedTwice).maindb) bindInvited.subtok 8 invitedSession := by
  exact ⟨rfl, by decide, stored_invitedTwice.1, rfl, by decide⟩

theorem bound_invitedTwice : (serve (Run.final serveStep emptyMaster invitedTwice) (.bind3pid bindInvited) bindEnv).1 =
    .ok (.bind3pid boundReply) := by
  have answer := stored_invitedTwice.2.2.1
  generalize (serve (Run.final serveStep emptyMaster invitedTwice) (.bind3pid bindInvited) bindEnv).1 = result at answer
  cases result with
  | error e => contradiction
  | ok reply => exact congrArg Except.ok (Option.some.inj answer)

/-- One of the two invites is not told of the binding. -/
theorem invitedTwice_not_notified : EmptyStore emptyMaster ∧
    Usable (worldOf (Run.final serveStep emptyMaster invitedTwice).maindb) bindInvited.subtok 8 invitedSession ∧
    (serve (Run.final serveStep emptyMaster invitedTwice) (.bind3pid bindInvited) bindEnv).1 =
      .ok (.bind3pid boundReply) ∧
    ¬ Notifies (Run.final serveStep emptyMaster invitedTwice) (.bind3pid bindInvited, bindEnv) invitedSession
      (invitesOf compactJson boundReply.output) := by
  refine ⟨rfl, usable_invitedTwice, bound_invitedTwice, fun notifies => ?_⟩
  obtain ⟨ids, nodup, inIds, entries⟩ := notifies.listed
  have has (n : ℕ) (stored : n ∈ [2, 5]) : n ∈ ids := by
    obtain ⟨token, has, fields⟩ := Option.map_eq_some_iff.mp (stored_invitedTwice.2.1 n stored)
    exact (inIds n).mpr ⟨token, has, Prod.ext_iff.mp fields⟩
  obtain ⟨id, same⟩ := List.length_eq_one_iff.mp (entries.length_eq.trans stored_invitedTwice.2.2.2)
  have first := has 2 (by decide)
  have second := has 5 (by decide)
  rw [same, List.mem_singleton] at first second
  omega

theorem notifies_iff_atMostOne_invitedTwice :
    Notifies (Run.final serveStep emptyMaster invitedTwice) (.bind3pid bindInvited, bindEnv) invitedSession
        (invitesOf compactJson boundReply.output) ↔
      AtMostOne (worldOf (Run.final serveStep emptyMaster invitedTwice).maindb) invitedSession :=
  notifies_iff_atMostOne compactJson_roundTrips emptyStore_emptyMaster invitedTwice usable_invitedTwice
    bound_invitedTwice

end Identt.Hrpc
