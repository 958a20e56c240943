import Identt.Hrpc.AccessKeys

/-! # Data under access keys

The data of all users lie in one table, under the joined identifier of an access key and a tag of the
caller's own. What a key and a tag give back is what was last stored with them, and no other key or tag
comes between.
-/

namespace Identt.Hrpc

open Store Query ReadM StoreTrans BlobDataService

/-- The label stores data under a key and a tag, and is answered. -/
def StoresBlob (k tag : Bytes) (blob : Bytes × Bytes) (st : SharedTable) (label : ServeStep) : Prop :=
  ∃ bdata reply, label.1 = .setBlobData bdata ∧ (serve st label.1 label.2).1 = .ok reply ∧
    bdata.accessblob.accesskey = k ∧ bdata.accessblob.tag = tag ∧
    (bdata.accessblob.jsondata, bdata.accessblob.textdata) = blob

/-- The table holds data for the key with an identifier, under a tag. -/
def Holds (records : ℕ → Option BlobStoreT) (keyid : ℕ) (tag : Bytes) (blob : Bytes × Bytes) : Prop :=
  ∃ n blobstore, records n = some blobstore ∧ blobstore.keyid = keyid ∧ blobstore.tag = tag ∧
    (blobstore.jsondata, blobstore.textdata) = blob

/-- The answer to a request for data. -/
def blobReply (bdata : GetBlobDataT) (blob : Bytes × Bytes) : GetBlobDataT :=
  { bdata with accessblob := { bdata.accessblob with jsondata := blob.1, textdata := blob.2 } }

/-- The identifier of a key and the tag can be read off the joined key, whatever the tag contains. -/
theorem blobKey_inj {left right : BlobStoreT} :
    blobStoreTable.getKey left .uBlobStoreKeyIdTag false = blobStoreTable.getKey right .uBlobStoreKeyIdTag false ↔
      left.keyid = right.keyid ∧ left.tag = right.tag := by
  constructor
  · intro same
    obtain ⟨keyid, tag⟩ := eq_of_sep_append (fmtSep_notMem_hex _ _) (fmtSep_notMem_hex _ _)
      (List.append_cancel_left same)
    exact ⟨hex_injective _ keyid, tag⟩
  · rintro ⟨keyid, tag⟩
    simp only [blobStoreTable, BlobStoreT.getKey, keyid, tag]

theorem blob_of_lookedUp {records : ℕ → Option BlobStoreT} {keyid : ℕ} {tag : Bytes} {found : Bool}
    {blobstore : BlobStoreT} (looked : LookedUp blobStoreTable records .uBlobStoreKeyIdTag { keyid := keyid, tag := tag }
      (found, blobstore)) : blobstore.keyid = keyid ∧ blobstore.tag = tag := by
  cases looked with
  | found n blobstore has same => exact blobKey_inj.mp same
  | absent => exact ⟨rfl, rfl⟩

section Table

variable {db : DB} {records : ℕ → Option BlobStoreT} (represents : blobStoreTable.Represents db records) {keyid : ℕ}
  {tag : Bytes} {found : Bool} {blobstore : BlobStoreT}
include represents

/-- What a lookup by key and tag finds is what the table holds for them. -/
theorem holds_iff_of_lookedUp (looked : LookedUp blobStoreTable records .uBlobStoreKeyIdTag
      { keyid := keyid, tag := tag } (found, blobstore)) (blob : Bytes × Bytes) :
    Holds records keyid tag blob ↔ found = true ∧ (blobstore.jsondata, blobstore.textdata) = blob := by
  cases looked with
  | found n blobstore has same =>
    obtain ⟨isKey, isTag⟩ := blobKey_inj.mp same
    constructor
    · rintro ⟨m, other, hasOther, otherKey, otherTag, data⟩
      have sameKey : blobStoreTable.getKey other .uBlobStoreKeyIdTag false =
          blobStoreTable.getKey blobstore .uBlobStoreKeyIdTag false :=
        blobKey_inj.mpr ⟨otherKey.trans isKey.symm, otherTag.trans isTag.symm⟩
      obtain rfl := represents.unique (List.mem_singleton_self _) hasOther has sameKey
      obtain rfl := Option.some.inj (hasOther.symm.trans has)
      exact ⟨rfl, data⟩
    · rintro ⟨_, data⟩
      exact ⟨n, blobstore, has, isKey, isTag, data⟩
  | absent nobody =>
    constructor
    · rintro ⟨m, other, hasOther, otherKey, otherTag, _⟩
      exact (nobody m other hasOther (blobKey_inj.mpr ⟨otherKey, otherTag⟩)).elim
    · rintro ⟨⟨⟩, _⟩

/-- Storing data under a key and a tag replaces what is held for them, and nothing else. -/
theorem holds_stored_iff {counter id taken : ℕ} {accessblob : AccessBlobT} (looked : LookedUp blobStoreTable records
      .uBlobStoreKeyIdTag { keyid := keyid, tag := tag } (found, blobstore))
    (takes : Gives (takeId found blobstore.id) counter id taken) (free : found = false → records id = none)
    {otherKey : ℕ} {otherTag : Bytes} {blob : Bytes × Bytes} :
    Holds (Function.update records id (some (storedBlob accessblob id blobstore))) otherKey otherTag blob ↔
      if otherKey = keyid ∧ otherTag = tag then (accessblob.jsondata, accessblob.textdata) = blob
      else Holds records otherKey otherTag blob := by
  obtain ⟨isKey, isTag⟩ := blob_of_lookedUp looked
  -- the record written is the one that was held for them, if there was one
  have overwritten {m : ℕ} {other : BlobStoreT} (has : records m = some other) :
      m = id ↔ other.keyid = keyid ∧ other.tag = tag := by
    obtain ⟨rfl, -⟩ := gives_takeId.mp takes
    cases looked with
    | found n blobstore hasOld same =>
      have number : blobstore.id = n := represents.id_eq n blobstore hasOld
      rw [if_pos rfl, number, ← isKey, ← isTag, ← blobKey_inj,
        represents.unique_iff (List.mem_singleton_self _) has hasOld]
    | absent nobody =>
      constructor
      · rintro rfl
        rw [free rfl] at has
        contradiction
      · rintro same
        exact (nobody m other has (blobKey_inj.mpr same)).elim
  constructor
  · rintro ⟨m, other, has, sameKey, sameTag, data⟩
    rw [Function.update_apply] at has
    split at has
    · obtain rfl := Option.some.inj has
      rw [if_pos ⟨sameKey.symm.trans isKey, sameTag.symm.trans isTag⟩]
      exact data
    · next differ =>
      rw [if_neg]
      · exact ⟨m, other, has, sameKey, sameTag, data⟩
      · rintro ⟨rfl, rfl⟩
        exact differ ((overwritten has).mpr ⟨sameKey, sameTag⟩)
  · intro holds
    split at holds
    · next same =>
      obtain ⟨rfl, rfl⟩ := same
      exact ⟨id, _, Function.update_self .., isKey, isTag, holds⟩
    · next differ =>
      obtain ⟨m, other, has, rfl, rfl, data⟩ := holds
      refine ⟨m, other, ?_, rfl, rfl, data⟩
      rw [Function.update_of_ne, has]
      exact fun same => differ ((overwritten has).mp same)

end Table

/-- What a request does to the data: nothing, or what is presented with a key that passes is stored under it and
the tag. -/
inductive BlobStep (st : SharedTable) (label : ServeStep) : (ℕ → Option BlobStoreT) → Prop
  | silent (quiet : ∀ k tag blob, ¬ StoresBlob k tag blob st label) : BlobStep st label (worldOf st.maindb .blobStore)
  | stored {bdata : SetBlobDataT} {accesskey : AccessKeyT} {found : Bool} {blobstore : BlobStoreT} {id taken : ℕ}
      (sets : label.1 = .setBlobData bdata) (passed : presentedKey st bdata.accessblob.accesskey = .ok accesskey)
      (looked : LookedUp blobStoreTable (worldOf st.maindb .blobStore) .uBlobStoreKeyIdTag
        { keyid := accesskey.id, tag := bdata.accessblob.tag } (found, blobstore))
      (takes : Gives (takeId found blobstore.id) st.maincounter id taken)
      (free : found = false → worldOf st.maindb .blobStore id = none)
      (stores : ∀ k tag blob, StoresBlob k tag blob st label ↔ bdata.accessblob.accesskey = k ∧
        bdata.accessblob.tag = tag ∧ (bdata.accessblob.jsondata, bdata.accessblob.textdata) = blob) :
      BlobStep st label (Function.update (worldOf st.maindb .blobStore) id
        (some (storedBlob bdata.accessblob id blobstore)))

/-- Only data that is presented with a key that passes is written. -/
theorem Writes.blobStore_kept {world : World} {hostname : Bytes} {env : ActionEnv} {counter counter' : ℕ}
    {request : MasterRequest} {ops : List TableOp} (writes : Writes world hostname env counter request ops counter')
    (other : ∀ bdata, request ≠ .setBlobData bdata) : ops.foldl TableOp.apply world .blobStore = world .blobStore := by
  have frame := Writes.frame .blobStore writes
  cases writes with
  | setBlobData => exact (other _ rfl).elim
  | requestToken | submitToken | bind3pid | storeInvite | pending | getAccessKey =>
    exact frame (by simp [MasterRequest.tables])

theorem blobStore_kept {st : SharedTable} (invariant : TableInvariant st.maindb) {request : MasterRequest}
    (other : ∀ bdata, request ≠ .setBlobData bdata) (env : ActionEnv) :
    worldOf (serve st request env).2.maindb .blobStore = worldOf st.maindb .blobStore := by
  obtain ⟨_, same | ⟨ops, writes, _, _, represents⟩⟩ := serve_cases invariant request env
  · rw [← same.world_eq]
  · rw [← represents.world_eq]
    exact writes.blobStore_kept other

theorem Consistent.serve_blobStep {st : SharedTable} (consistent : Consistent st) (label : ServeStep) :
    BlobStep st label (worldOf (serveStep st label).maindb .blobStore) := by
  have invariant := consistent.invariant
  obtain ⟨request, env⟩ := label
  by_cases sets : ∃ bdata, request = .setBlobData bdata
  · obtain ⟨bdata, rfl⟩ := sets
    cases answer : presentedKey st bdata.accessblob.accesskey with
    | error e =>
      have failed := @serve_setBlobData_refused st env e bdata answer
      rw [show serveStep st (.setBlobData bdata, env) = st from congrArg Prod.snd failed]
      refine .silent fun k tag blob stored => ?_
      obtain ⟨_, _, _, answered, _⟩ := stored
      rw [failed] at answered
      contradiction
    | ok accesskey =>
      obtain ⟨found, blobstore, id, taken, transaction, looked, takes, gives, built, cachable⟩ :=
        @setBlobData_passed_gives st consistent env bdata accesskey answer
      have nonempty := built.item_ne_nil (List.mem_singleton_self _)
      have after := (serve_of_gives invariant gives rfl built).2
      have stores (k tag : Bytes) (blob : Bytes × Bytes) : StoresBlob k tag blob st (.setBlobData bdata, env) ↔
          (env.commit.logPut = true ∧ env.commit.dataWrite = true) ∧ bdata.accessblob.accesskey = k ∧
            bdata.accessblob.tag = tag ∧ (bdata.accessblob.jsondata, bdata.accessblob.textdata) = blob := by
        constructor
        · rintro ⟨_, reply, ⟨⟩, answered, presents⟩
          obtain ⟨_, logged, written, _⟩ := (serve_ok_iff gives nonempty).mp answered
          exact ⟨⟨logged, written⟩, presents⟩
        · rintro ⟨⟨logged, written⟩, presents⟩
          exact ⟨bdata, _, rfl, (serve_ok_iff gives nonempty).mpr ⟨rfl, logged, written, fun _ => cachable⟩, presents⟩
      by_cases written : (env.commit.logPut && env.commit.dataWrite) = true
      · rw [if_pos written] at after
        rw [serveStep, ← after.world_eq, List.foldl_cons, List.foldl_nil, apply_add_self]
        refine .stored rfl answer looked takes ?_ fun k tag blob => ?_
        · rintro rfl
          rw [(gives_takeId.mp takes).1]
          exact consistent.numbered.free .blobStore (Nat.lt_succ_self _)
        · rw [stores]
          exact and_iff_right ((Bool.and_eq_true _ _).mp written)
      · rw [if_neg written] at after
        rw [serveStep, ← after.world_eq]
        exact .silent fun k tag blob stored => written ((Bool.and_eq_true _ _).mpr ((stores k tag blob).mp stored).1)
  · have other (bdata : SetBlobDataT) : request ≠ .setBlobData bdata := fun same => sets ⟨bdata, same⟩
    rw [serveStep, blobStore_kept invariant other]
    refine .silent fun k tag blob stored => ?_
    obtain ⟨bdata, _, same, _⟩ := stored
    exact other bdata same

section Keys

variable {st : SharedTable} {label : ServeStep} {after : ℕ → Option AccessKeyT}

/-- Keys stay as they are. -/
theorem KeyStep.kept (step : KeyStep st label after) {n : ℕ} {accesskey : AccessKeyT}
    (has : worldOf st.maindb .accessKey n = some accesskey) : after n = some accesskey := by
  cases step with
  | silent => exact has
  | known => exact has
  | made asks usable absent logged written free =>
    rw [Function.update_of_ne, has]
    rintro rfl
    rw [free] at has
    contradiction

/-- A key was there before, or is new: its text is that of no key, and its identifier was free. -/
theorem KeyStep.old_or_new (keys : KeysKept st) (step : KeyStep st label after) {n : ℕ} {accesskey : AccessKeyT}
    (has : after n = some accesskey) : worldOf st.maindb .accessKey n = some accesskey ∨
      worldOf st.maindb .accessKey n = none ∧ ∀ m other, worldOf st.maindb .accessKey m = some other →
        keyText other ≠ keyText accesskey := by
  cases step with
  | silent => exact .inl has
  | known => exact .inl has
  | @made data sid session asks usable absent logged written free =>
    rw [Function.update_apply] at has
    split at has
    · next isNew =>
      obtain rfl := Option.some.inj has
      refine .inr ⟨isNew ▸ free, fun m other hasOther same => absent ?_⟩
      obtain ⟨medium, address, _⟩ := keyText_inj (keys.plain m other hasOther)
        (newAccessKey_plain (plain_of_served (keys.served sid session usable.has))) same
      exact ⟨m, other, hasOther, medium, address⟩
    · exact .inl has

end Keys

/-- What is known of the data after a run: the key of each record is stored, and so is each key under which data
were stored; and what the table holds for a key and a tag was last stored under them. -/
structure BlobsTold (start : SharedTable) (past : List ServeStep) : Prop where
  keys : KeysKept (Run.final serveStep start past)
  owned : ∀ n blobstore, worldOf (Run.final serveStep start past).maindb .blobStore n = some blobstore →
    ∃ accesskey, worldOf (Run.final serveStep start past).maindb .accessKey blobstore.keyid = some accesskey
  presented : ∀ k tag blob, Run.Latest serveStep (StoresBlob k tag) start past blob →
    ∃ n accesskey, worldOf (Run.final serveStep start past).maindb .accessKey n = some accesskey ∧ keyText accesskey = k
  latest : ∀ n accesskey, worldOf (Run.final serveStep start past).maindb .accessKey n = some accesskey →
    ∀ tag blob, Holds (worldOf (Run.final serveStep start past).maindb .blobStore) n tag blob ↔
      Run.Latest serveStep (StoresBlob (keyText accesskey) tag) start past blob

/-- Of two stored keys with one text, both are the same. -/
theorem KeysKept.text_unique {st : SharedTable} (keys : KeysKept st) {m n : ℕ} {left right : AccessKeyT}
    (hasLeft : worldOf st.maindb .accessKey m = some left) (hasRight : worldOf st.maindb .accessKey n = some right) :
    keyText left = keyText right ↔ m = n := by
  constructor
  · intro same
    have plainLeft := keys.plain m left hasLeft
    have plainRight := keys.plain n right hasRight
    obtain ⟨medium, address, _⟩ := keyText_inj plainLeft plainRight same
    exact (keys.consistent.invariant .accessKey).unique (List.mem_singleton_self _) hasLeft hasRight
      ((accessKey_inj plainLeft.medium plainRight.medium).mpr ⟨medium, address⟩)
  · rintro rfl
    rw [Option.some.inj (hasLeft.symm.trans hasRight)]

/-- The key behind a text that passes, under its own identifier. -/
theorem KeysKept.presented {st : SharedTable} (keys : KeysKept st) {k : Bytes} {accesskey : AccessKeyT}
    (passed : presentedKey st k = .ok accesskey) :
    worldOf st.maindb .accessKey accesskey.id = some accesskey ∧ keyText accesskey = k := by
  obtain ⟨⟨n, has⟩, _, text⟩ := (presentedKey_eq_ok_iff keys.consistent.invariant keys.plain).mp passed
  have number : accesskey.id = n := (keys.consistent.invariant .accessKey).id_eq n accesskey has
  exact ⟨number ▸ has, text⟩

section Step

variable {start : SharedTable} {past : List ServeStep} (told : BlobsTold start past) {label : ServeStep}
  {keys : ℕ → Option AccessKeyT} {blobs : ℕ → Option BlobStoreT}
  (keyStep : KeyStep (Run.final serveStep start past) label keys)
  (blobStep : BlobStep (Run.final serveStep start past) label blobs)
include told keyStep blobStep

theorem BlobsTold.owned_step {n : ℕ} {blobstore : BlobStoreT} (has : blobs n = some blobstore) :
    ∃ accesskey, keys blobstore.keyid = some accesskey := by
  cases blobStep with
  | silent =>
    obtain ⟨accesskey, hasKey⟩ := told.owned n blobstore has
    exact ⟨accesskey, keyStep.kept hasKey⟩
  | @stored bdata accesskey found record id taken sets passed looked =>
    rw [Function.update_apply] at has
    split at has
    · obtain rfl := Option.some.inj has
      have sameKey : (storedBlob bdata.accessblob id record).keyid = accesskey.id := (blob_of_lookedUp looked).1
      rw [sameKey]
      exact ⟨accesskey, keyStep.kept (told.keys.presented passed).1⟩
    · obtain ⟨accesskey, hasKey⟩ := told.owned n blobstore has
      exact ⟨accesskey, keyStep.kept hasKey⟩

theorem BlobsTold.presented_step {k tag : Bytes} {blob : Bytes × Bytes}
    (latest : Run.Latest serveStep (StoresBlob k tag) start (past ++ [label]) blob) :
    ∃ n accesskey, keys n = some accesskey ∧ keyText accesskey = k := by
  rcases Run.latest_concat.mp latest with now | ⟨_, earlier⟩
  · cases blobStep with
    | silent quiet => exact (quiet k tag blob now).elim
    | stored sets passed looked takes free stores =>
      obtain ⟨has, text⟩ := told.keys.presented passed
      exact ⟨_, _, keyStep.kept has, text.trans ((stores k tag blob).mp now).1⟩
  · obtain ⟨n, accesskey, has, text⟩ := told.presented k tag blob earlier
    exact ⟨n, accesskey, keyStep.kept has, text⟩

omit keyStep in
/-- For a key that was there before: what is held for it and a tag was last stored under them. -/
theorem BlobsTold.latest_old {n : ℕ} {accesskey : AccessKeyT}
    (has : worldOf (Run.final serveStep start past).maindb .accessKey n = some accesskey) (tag : Bytes)
    (blob : Bytes × Bytes) : Holds blobs n tag blob ↔
      Run.Latest serveStep (StoresBlob (keyText accesskey) tag) start (past ++ [label]) blob := by
  rw [Run.latest_concat, ← told.latest n accesskey has tag blob]
  cases blobStep with
  | silent quiet =>
    rw [or_iff_right (quiet _ _ _), and_iff_right (quiet _ _)]
  | @stored bdata presented found blobstore id taken sets passed looked takes free stores =>
    obtain ⟨hasPresented, text⟩ := told.keys.presented passed
    have same : bdata.accessblob.accesskey = keyText accesskey ↔ n = presented.id := by
      rw [← text, told.keys.text_unique hasPresented has, eq_comm]
    rw [holds_stored_iff (told.keys.consistent.invariant .blobStore) looked takes free]
    simp only [stores, same]
    split
    · next here =>
      obtain ⟨isKey, isTag⟩ := here
      simp [isKey, isTag]
    · next differ =>
      rw [or_iff_right fun now => differ ⟨now.1, now.2.1.symm⟩,
        and_iff_right fun other now => differ ⟨now.1, now.2.1.symm⟩]

omit keyStep in
/-- For a new key nothing is held, and nothing was stored. -/
theorem BlobsTold.latest_new {n : ℕ} {accesskey : AccessKeyT}
    (isNew : worldOf (Run.final serveStep start past).maindb .accessKey n = none)
    (alone : ∀ m other, worldOf (Run.final serveStep start past).maindb .accessKey m = some other →
      keyText other ≠ keyText accesskey) (tag : Bytes) (blob : Bytes × Bytes) : Holds blobs n tag blob ↔
      Run.Latest serveStep (StoresBlob (keyText accesskey) tag) start (past ++ [label]) blob := by
  have unheld : ¬ Holds (worldOf (Run.final serveStep start past).maindb .blobStore) n tag blob := by
    rintro ⟨m, blobstore, has, rfl, _⟩
    obtain ⟨owner, hasOwner⟩ := told.owned m blobstore has
    rw [isNew] at hasOwner
    contradiction
  have unstored : ¬ Run.Latest serveStep (StoresBlob (keyText accesskey) tag) start past blob := by
    intro latest
    obtain ⟨m, other, has, text⟩ := told.presented _ _ _ latest
    exact alone m other has text
  rw [Run.latest_concat, or_iff_left fun earlier => unstored earlier.2]
  cases blobStep with
  | silent quiet => exact iff_of_false unheld (quiet _ _ _)
  | stored sets passed looked takes free stores =>
    obtain ⟨hasPresented, text⟩ := told.keys.presented passed
    refine iff_of_false ?_ fun now => alone _ _ hasPresented (text.trans ((stores _ _ _).mp now).1)
    rw [holds_stored_iff (told.keys.consistent.invariant .blobStore) looked takes free, if_neg]
    · exact unheld
    · rintro ⟨rfl, _⟩
      rw [isNew] at hasPresented
      contradiction

end Step

theorem BlobsTold.step {start : SharedTable} {past : List ServeStep} (told : BlobsTold start past) (label : ServeStep) :
    BlobsTold start (past ++ [label]) := by
  have keyStep := told.keys.serve_keyStep label
  have blobStep := told.keys.consistent.serve_blobStep label
  have after : Run.final serveStep start (past ++ [label]) = serveStep (Run.final serveStep start past) label :=
    Run.final_concat ..
  refine ⟨?_, fun n blobstore has => ?_, fun k tag blob latest => ?_, fun n accesskey has tag blob => ?_⟩
  · rw [after]
    exact told.keys.step label
  · rw [after] at has ⊢
    exact told.owned_step keyStep blobStep has
  · rw [after]
    exact told.presented_step keyStep blobStep latest
  · rw [after] at has ⊢
    rcases keyStep.old_or_new told.keys has with old | ⟨isNew, alone⟩
    · exact told.latest_old blobStep old tag blob
    · exact told.latest_new blobStep isNew alone tag blob

theorem EmptyStore.blobsTold {start : SharedTable} (empty : EmptyStore start) : BlobsTold start [] :=
  ⟨empty.keysKept, fun n blobstore has => (empty.nothing .blobStore n blobstore has).elim,
    fun _ _ _ latest => (Run.not_latest_nil _ latest).elim,
    fun n accesskey has => (empty.nothing .accessKey n accesskey has).elim⟩

/-- What asking for data under a key that passes and a tag is answered. -/
theorem getBlobData_iff {st : SharedTable} (invariant : TableInvariant st.maindb) {bdata : GetBlobDataT}
    {accesskey : AccessKeyT} (passed : presentedKey st bdata.accessblob.accesskey = .ok accesskey) :
    (∀ blob, Holds (worldOf st.maindb .blobStore) accesskey.id bdata.accessblob.tag blob →
      getBlobDataAction st bdata = .ok (blobReply bdata blob)) ∧
    ((∀ blob, ¬ Holds (worldOf st.maindb .blobStore) accesskey.id bdata.accessblob.tag blob) →
      getBlobDataAction st bdata = .error (.badData "Tag not found")) := by
  obtain ⟨found, blobstore, looked, outcome⟩ := getBlobData_passed invariant passed
  have holds := holds_iff_of_lookedUp (invariant .blobStore) looked
  refine ⟨fun blob held => ?_, fun nothing => ?_⟩
  · obtain ⟨rfl, rfl⟩ := (holds blob).mp held
    exact outcome
  · rw [outcome, if_neg]
    rintro rfl
    exact nothing _ ((holds _).mpr ⟨rfl, rfl⟩)

/-- A key that passes still does after more requests. -/
theorem KeysKept.presentedKey_step {st : SharedTable} (keys : KeysKept st) {k : Bytes} {accesskey : AccessKeyT}
    (passed : presentedKey st k = .ok accesskey) (label : ServeStep) :
    presentedKey (serveStep st label) k = .ok accesskey := by
  have after := keys.step label
  obtain ⟨⟨n, has⟩, address, text⟩ := (presentedKey_eq_ok_iff keys.consistent.invariant keys.plain).mp passed
  exact (presentedKey_eq_ok_iff after.consistent.invariant after.plain).mpr
    ⟨⟨n, (keys.serve_keyStep label).kept has⟩, address, text⟩

theorem EmptyStore.run_blobsTold {start : SharedTable} (empty : EmptyStore start) (labels : List ServeStep) :
    BlobsTold start labels := by
  induction labels using List.reverseRecOn with
  | nil => exact empty.blobsTold
  | append_singleton past label ih => exact ih.step label

/-- What the table holds for a key that passes and a tag was last stored with them. -/
theorem BlobsTold.held_iff {start : SharedTable} {past : List ServeStep} (told : BlobsTold start past) {k : Bytes}
    {accesskey : AccessKeyT} (passed : presentedKey (Run.final serveStep start past) k = .ok accesskey) (tag : Bytes)
    (blob : Bytes × Bytes) :
    Holds (worldOf (Run.final serveStep start past).maindb .blobStore) accesskey.id tag blob ↔
      Run.Latest serveStep (StoresBlob k tag) start past blob := by
  obtain ⟨has, text⟩ := told.keys.presented passed
  rw [← text]
  exact told.latest _ _ has tag blob

/-- After every run on an empty store, a key that passes and a tag give back what was last stored with them, and
nothing exactly if nothing was; and data stored with another key, or another tag, do not change that. -/
theorem blobs_latest {start : SharedTable} (empty : EmptyStore start) (labels : List ServeStep) {bdata : GetBlobDataT}
    {accesskey : AccessKeyT}
    (passed : presentedKey (Run.final serveStep start labels) bdata.accessblob.accesskey = .ok accesskey) :
    (∀ blob, Run.Latest serveStep (StoresBlob bdata.accessblob.accesskey bdata.accessblob.tag) start labels blob →
      getBlobDataAction (Run.final serveStep start labels) bdata = .ok (blobReply bdata blob)) ∧
    (getBlobDataAction (Run.final serveStep start labels) bdata = .error (.badData "Tag not found") ↔
      ∀ blob j, ¬ Run.Occurs serveStep (StoresBlob bdata.accessblob.accesskey bdata.accessblob.tag blob) start labels j) ∧
    ∀ other env, presentedKey (Run.final serveStep start labels) other.accessblob.accesskey ≠ .ok accesskey ∨
        other.accessblob.tag ≠ bdata.accessblob.tag →
      getBlobDataAction (serveStep (Run.final serveStep start labels) (.setBlobData other, env)) bdata =
        getBlobDataAction (Run.final serveStep start labels) bdata := by
  have told := empty.run_blobsTold labels
  have held := told.held_iff passed bdata.accessblob.tag
  obtain ⟨known, unknown⟩ := getBlobData_iff told.keys.consistent.invariant passed
  refine ⟨fun blob latest => known blob ((held blob).mpr latest), ⟨fun missing blob j occurs => ?_, fun never =>
    unknown fun blob holds => ?_⟩, fun other env differs => ?_⟩
  · obtain ⟨last, latest⟩ := Run.exists_latest occurs
    rw [known last ((held last).mpr latest)] at missing
    contradiction
  · obtain ⟨j, occurs, _⟩ := (held blob).mp holds
    exact never blob j occurs
  · have toldAfter := told.step (.setBlobData other, env)
    have passedAfter := told.keys.presentedKey_step passed (.setBlobData other, env)
    rw [← Run.final_concat serveStep start labels] at passedAfter ⊢
    -- the request stores nothing with this key and this tag
    have elsewhere (blob : Bytes × Bytes) : ¬ StoresBlob bdata.accessblob.accesskey bdata.accessblob.tag blob
        (Run.final serveStep start labels) (.setBlobData other, env) := by
      rintro ⟨_, _, ⟨⟩, _, sameKey, sameTag, _⟩
      rcases differs with differs | differs
      · exact differs (sameKey ▸ passed)
      · exact differs sameTag
    have heldAfter (blob : Bytes × Bytes) := (toldAfter.held_iff passedAfter bdata.accessblob.tag blob).trans
      (Run.latest_concat.trans ((or_iff_right (elsewhere blob)).trans (and_iff_right elsewhere)))
    obtain ⟨knownAfter, unknownAfter⟩ := getBlobData_iff toldAfter.keys.consistent.invariant passedAfter
    by_cases stored : ∃ blob, Run.Latest serveStep (StoresBlob bdata.accessblob.accesskey bdata.accessblob.tag) start
        labels blob
    · obtain ⟨blob, latest⟩ := stored
      rw [knownAfter blob ((heldAfter blob).mpr latest), known blob ((held blob).mpr latest)]
    · have nothing := not_exists.mp stored
      rw [unknownAfter fun blob holds => nothing blob ((heldAfter blob).mp holds),
        unknown fun blob holds => nothing blob ((held blob).mp holds)]

/-- Data for a tag with a separator in it. -/
def taggedText (text : String) : SetBlobDataT where
  accessblob := { accesskey := ascii "email:a@x.com:1b4e28ba", tag := ascii "a:b", textdata := ascii text }

/-- A user validates an address, asks for its key and stores data with it twice. -/
def keyAndBlobs : List ServeStep :=
  [(tokenRequest "a@x.com" "q" 1, { currtime := 1000000, commit := { now := 1000000 } }),
    (.submitToken { subtok := { sid := ascii "2", clientSecret := ascii "q", token := ascii "111111" } },
      { currtime := 1000001, commit := { now := 1000001 } }),
    (.getAccessKey { subtok := { sid := ascii "2", clientSecret := ascii "q" } },
      { currtime := 1000002, commit := { now := 1000002 }, uuid := ascii "1b4e28ba" }),
    (.setBlobData (taggedText "one"), { currtime := 1000003, commit := { now := 1000003 } }),
    (.setBlobData (taggedText "two"), { currtime := 1000004, commit := { now := 1000004 } })]

theorem blobs_latest_keyAndBlobs :
    getBlobDataAction (Run.final serveStep emptyMaster keyAndBlobs)
        { accessblob := { accesskey := ascii "email:a@x.com:1b4e28ba", tag := ascii "a:b" } } =
      .ok { accessblob := { accesskey := ascii "email:a@x.com:1b4e28ba", tag := ascii "a:b", textdata := ascii "two" } } := by
  have passes : (presentedKey (Run.final serveStep emptyMaster keyAndBlobs) (ascii "email:a@x.com:1b4e28ba")).isOk := by
    decide +kernel
  obtain ⟨accesskey, passed⟩ : ∃ accesskey, presentedKey (Run.final serveStep emptyMaster keyAndBlobs)
      (ascii "email:a@x.com:1b4e28ba") = .ok accesskey := by
    cases answer : presentedKey (Run.final serveStep emptyMaster keyAndBlobs) (ascii "email:a@x.com:1b4e28ba") with
    | ok accesskey => exact ⟨accesskey, rfl⟩
    | error e =>
      rw [answer] at passes
      contradiction
  have answered : (serve (Run.final serveStep emptyMaster (keyAndBlobs.take 4)) keyAndBlobs[4].1 keyAndBlobs[4].2).1 =
      .ok keyAndBlobs[4].1 := by decide +kernel
  refine (@blobs_latest emptyMaster emptyStore_emptyMaster keyAndBlobs { accessblob :=
    { accesskey := ascii "email:a@x.com:1b4e28ba", tag := ascii "a:b" } } accesskey passed).1 ([], ascii "two")
    ⟨4, ⟨_, rfl, _, _, rfl, answered, rfl, rfl, rfl⟩, fun k after y later => ?_⟩
  have bound : k < 5 := later.lt
  omega

end Identt.Hrpc
