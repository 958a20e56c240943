import Identt.Hrpc.InviteNotices
import Identt.Lib.Split

/-! # Access keys, as they are handed out and presented

A key is handed out as one text that joins medium, address and secret, and is taken apart at every
separator when it is presented. The medium and the secret keep off the separator; the address need not,
and a key for an address that does not can never be presented.
-/

namespace Identt.Hrpc

open Store Query ReadM StoreTrans ValidateService ThreePidService BlobDataService AccessKeyService

/-- The text that a key is handed out as. -/
def keyText (accesskey : AccessKeyT) : Bytes :=
  accesskey.medium ++ fmtSep :: (accesskey.address ++ fmtSep :: accesskey.accesskey)

/-- A stored key keeps off the separator, except in its address. -/
structure PlainKey (accesskey : AccessKeyT) : Prop where
  medium : fmtSep ∉ accesskey.medium
  accesskey : fmtSep ∉ accesskey.accesskey

/-- What the checks of a presented key throw. -/
def keyRefusals : List Exn :=
  [.badData "Bad Accesskey", .badData "Accesskey not found", .badData "Accesskey mismatch"]

/-- The actions that check a presented key let it pass if and only if the proposition holds. -/
structure Honours (st : SharedTable) (k : Bytes) (returned : Prop) : Prop where
  verify : verifyAccessKeyAction st k = .ok () ↔ returned
  get : ∀ bdata : GetBlobDataT, bdata.accessblob.accesskey = k →
    ((∀ e ∈ keyRefusals, getBlobDataAction st bdata ≠ .error e) ↔ returned)
  set : ∀ bdata env, bdata.accessblob.accesskey = k →
    ((∀ e ∈ keyRefusals, (serve st (.setBlobData bdata) env).1 ≠ .error e) ↔ returned)

/-- The label asks for an access key and is answered with the given one. -/
def Returns (k : Bytes) (st : SharedTable) (label : ServeStep) : Prop :=
  ∃ data reply, label.1 = .getAccessKey data ∧ (serve st label.1 label.2).1 = .ok (.getAccessKey reply) ∧
    reply.accessblob.accesskey = k

/-- A key is stored for the address of a session. -/
def HasKey (world : World) (session : ValidationSessionT) : Prop :=
  ∃ n accesskey, world .accessKey n = some accesskey ∧ accesskey.medium = session.medium ∧
    accesskey.address = session.address

/-- The index key of a new access key looks primary to the cache of the node, and cannot be decoded. -/
def CacheStops (st : SharedTable) (session : ValidationSessionT) : Prop :=
  st.lookupUsesLocal = true ∧ session.medium = ascii "msisdn" ∧ session.address.length = 9

/-- If the request asks for the key of its session's address, the address keeps off the separator; but if the
key is made now and the cache then stops the answer, the address contains the separator. -/
def KeyHonoured (st : SharedTable) (label : ServeStep) : Prop :=
  ∀ data sid session, label.1 = .getAccessKey data → Usable (worldOf st.maindb) data.subtok sid session →
    (HasKey (worldOf st.maindb) session → fmtSep ∉ session.address) ∧
    (¬ HasKey (worldOf st.maindb) session → label.2.commit.logPut = true → label.2.commit.dataWrite = true →
      (fmtSep ∉ session.address ↔ ¬ CacheStops st session))

section Text

variable {accesskey accesskey' : AccessKeyT}

theorem keyText_reply (gva : GetAccessDataT) (accesskey : AccessKeyT) :
    (accessKeyReply gva accesskey).accessblob.accesskey = keyText accesskey := by
  have sep : ascii ":" = [fmtSep] := by decide
  simp only [accessKeyReply, keyText, sep, List.append_assoc, List.cons_append, List.nil_append]

/-- The text of a key tells its address, whatever the address contains. -/
theorem keyText_inj (plain : PlainKey accesskey) (plain' : PlainKey accesskey')
    (same : keyText accesskey = keyText accesskey') : accesskey.medium = accesskey'.medium ∧
      accesskey.address = accesskey'.address ∧ accesskey.accesskey = accesskey'.accesskey := by
  obtain ⟨medium, rest⟩ := eq_of_sep_append plain.medium plain'.medium same
  obtain ⟨address, secret⟩ := eq_of_append_sep plain.accesskey plain'.accesskey rest
  exact ⟨medium, address, secret⟩

/-- The text of a key falls into its three parts if the address keeps off the separator. -/
theorem splitOn_keyText (plain : PlainKey accesskey) (address : fmtSep ∉ accesskey.address) :
    (keyText accesskey).splitOn fmtSep = [accesskey.medium, accesskey.address, accesskey.accesskey] := by
  rw [keyText, List.splitOn_append_cons_self_of_not_mem plain.medium,
    List.splitOn_append_cons_self_of_not_mem address, List.splitOn_eq_singleton plain.accesskey]

theorem eq_of_splitOn {k medium address secret : Bytes} (pieces : k.splitOn fmtSep = [medium, address, secret]) :
    k = medium ++ fmtSep :: (address ++ fmtSep :: secret) := by
  have joined := @List.intercalate_splitOn _ k _ _ fmtSep
  rw [pieces] at joined
  rw [← joined]
  simp [List.intercalate]

/-- Keys with plain media are indexed alike only if they are for the same address. -/
theorem accessKey_inj (plain : fmtSep ∉ accesskey.medium) (plain' : fmtSep ∉ accesskey'.medium) :
    accessKeyTable.getKey accesskey .uAccessKeyMediumAddress false =
      accessKeyTable.getKey accesskey' .uAccessKeyMediumAddress false ↔
      accesskey.medium = accesskey'.medium ∧ accesskey.address = accesskey'.address := by
  constructor
  · intro same
    exact eq_of_sep_append plain plain' (List.append_cancel_left same)
  · rintro ⟨medium, address⟩
    simp only [accessKeyTable, AccessKeyT.getKey, medium, address]

end Text

section Presented

variable {st : SharedTable} (invariant : TableInvariant st.maindb)
  (plain : ∀ n accesskey, worldOf st.maindb .accessKey n = some accesskey → PlainKey accesskey)
include invariant plain

/-- A presented key passes if it is the text of a stored one whose address keeps off the separator. -/
theorem presentedKey_eq_ok_iff {k : Bytes} {accesskey : AccessKeyT} :
    presentedKey st k = .ok accesskey ↔
      (∃ n, worldOf st.maindb .accessKey n = some accesskey) ∧ fmtSep ∉ accesskey.address ∧
        keyText accesskey = k := by
  constructor
  · intro passed
    rw [presentedKey] at passed
    split at passed
    · next medium address secret pieces =>
      simp only [bind_eq_ok, require_eq_ok] at passed
      obtain ⟨⟨found, record⟩, lookup, _, rfl, _, agrees, ⟨⟩⟩ := passed
      have looked := (invariant .accessKey).lookedUp (List.mem_singleton_self _) lookup
      have plainMedium : fmtSep ∉ medium := @Split.notMem_of_mem_splitOn _ _ _ fmtSep k _ (by simp [pieces])
      have plainAddress : fmtSep ∉ address := @Split.notMem_of_mem_splitOn _ _ _ fmtSep k _ (by simp [pieces])
      cases looked with
      | found n accesskey has same =>
        obtain ⟨ofMedium, ofAddress⟩ := (accessKey_inj (plain n _ has).medium plainMedium).mp same
        refine ⟨⟨n, has⟩, ofAddress ▸ plainAddress, ?_⟩
        rw [eq_of_splitOn pieces, keyText, ofMedium, ofAddress, agrees]
    · contradiction
  · rintro ⟨⟨n, has⟩, address, rfl⟩
    have lookup : accessKeyTable.getOne st.maindb { medium := accesskey.medium, address := accesskey.address }
        .uAccessKeyMediumAddress = .ok (true, accesskey) :=
      (invariant .accessKey).getOne_of_key (List.mem_singleton_self _) has rfl
    rw [presentedKey, splitOn_keyText (plain n accesskey has) address]
    simp only [lookup]
    simp [bind, Except.bind, require]
    rfl

omit plain in
/-- A presented key that does not pass is refused. -/
theorem presentedKey_refused {k : Bytes} {e : Exn} (failed : presentedKey st k = .error e) : e ∈ keyRefusals := by
  rw [presentedKey] at failed
  split at failed
  · next medium address secret _ =>
    obtain ⟨⟨found, record⟩, lookup, -⟩ := (invariant .accessKey).getOne_total
      (List.mem_singleton_self KeyTypeE.uAccessKeyMediumAddress) { medium := medium, address := address }
    rw [show accessKeyTable.getOne st.maindb { medium := medium, address := address } .uAccessKeyMediumAddress =
      .ok (found, record) from lookup] at failed
    simp only [bind, Except.bind, require] at failed
    split_ifs at failed with known agrees <;> cases failed <;> simp [keyRefusals]
  · cases failed
    simp [keyRefusals]

end Presented

section Cache

/-- The transaction of a new key can stop the cache only through its index key. -/
theorem cachable_newKey {accesskey : AccessKeyT} :
    StoreCache.Cachable (accessKeyTable.recordItems none accesskey) ↔
      StoreCache.Cachable [⟨accessKeyTable.getKey accesskey .uAccessKeyMediumAddress false, .empty, false⟩] := by
  have primary := cachable_primary .kAccessKey accesskey.id (.accessKey accesskey) false
  constructor
  · rintro cachable item member length
    obtain rfl := List.mem_singleton.mp member
    exact cachable ⟨_, accessKeyTable.dumpNode accesskey, false⟩ (List.mem_cons_self ..) length
  · rintro cachable item member
    simp only [StoreTable.recordItems, List.mem_append, List.mem_flatMap] at member
    rcases member with ⟨keytype, inKeys, ofKey⟩ | isPrimary
    · obtain rfl := List.mem_singleton.mp inKeys
      obtain rfl := List.mem_singleton.mp ofKey
      exact cachable ⟨_, .empty, false⟩ (List.mem_singleton_self _)
    · exact primary item isPrimary

/-- An index key stops the cache exactly if it has the length of a primary key and its medium starts with no
digit. -/
theorem cachable_indexKey {accesskey : AccessKeyT}
    (medium : accesskey.medium = ascii "email" ∨ accesskey.medium = ascii "msisdn") :
    StoreCache.Cachable [⟨accessKeyTable.getKey accesskey .uAccessKeyMediumAddress false, .empty, false⟩] ↔
      ¬ (accesskey.medium = ascii "msisdn" ∧ accesskey.address.length = 9) := by
  have key : accessKeyTable.getKey accesskey .uAccessKeyMediumAddress false =
      hex keyIdLen KeyTypeE.uAccessKeyMediumAddress.number ++ (accesskey.medium ++ fmtSep :: accesskey.address) := rfl
  have front : (hex keyIdLen KeyTypeE.uAccessKeyMediumAddress.number).length = keyIdLen := by decide
  have typed : stoull 16 (hex keyIdLen KeyTypeE.uAccessKeyMediumAddress.number) =
      .ok KeyTypeE.uAccessKeyMediumAddress.number := by decide
  have email : ascii "email" = [101, 109, 97, 105, 108] := by decide
  have msisdn : ascii "msisdn" = [109, 115, 105, 115, 100, 110] := by decide
  simp only [StoreCache.Cachable, List.mem_singleton, forall_eq, key, List.length_append, front, List.length_cons,
    decodePrimaryKey, List.take_left' front, List.drop_left' front, typed]
  rcases medium with medium | medium
  · have differ : accesskey.medium ≠ ascii "msisdn" := by
      rw [medium]
      decide
    refine ⟨fun _ both => differ both.1, fun _ length => ?_⟩
    rw [if_neg (by omega), List.take_of_length_le (by simp only [List.length_append, List.length_cons]; omega), medium,
      email]
    rfl
  · rw [medium, msisdn]
    constructor
    · rintro decodes ⟨-, length⟩
      have stops := decodes (by simp [length, keyIdLen, nodeLen])
      rw [if_neg (by simp [length, keyIdLen, nodeLen]), List.take_of_length_le (by simp [length, nodeLen])] at stops
      exact Bool.false_ne_true stops
    · intro other length
      exact (other ⟨rfl, by simp [keyIdLen, nodeLen] at length; omega⟩).elim

end Cache

section Served

variable {st : SharedTable} (consistent : Consistent st) {env : ActionEnv}
include consistent

theorem usable_of_getAccessKey {data : GetAccessDataT} {reply : MasterRequest}
    (answered : (serve st (.getAccessKey data) env).1 = .ok reply) :
    ∃ sid session, Usable (worldOf st.maindb) data.subtok sid session := by
  obtain ⟨prepared, counter, gives⟩ := gives_of_serve_ok answered
  simp only [MasterRequest.read, getAccessKeyAction, gives_bind, gives_lift] at gives
  obtain ⟨_, _, ⟨session, _, ⟨checked, _⟩, _⟩, _⟩ := gives
  obtain ⟨sid, usable⟩ := (checkSession_eq_ok_iff consistent.invariant).mp checked
  exact ⟨sid, session, usable⟩

variable {data : GetAccessDataT} {sid : ℕ} {session : ValidationSessionT}
  (usable : Usable (worldOf st.maindb) data.subtok sid session)
include usable

/-- A key that is stored for the address is handed out, and nothing is written. -/
theorem serve_getAccessKey_stored {n : ℕ} {accesskey : AccessKeyT}
    (has : worldOf st.maindb .accessKey n = some accesskey) (medium : accesskey.medium = session.medium)
    (address : accesskey.address = session.address) :
    serve st (.getAccessKey data) env = (.ok (.getAccessKey (accessKeyReply data accesskey)), st) := by
  have invariant := consistent.invariant
  have checked : checkSession st env data.subtok = .ok session := (checkSession_eq_ok_iff invariant).mpr ⟨sid, usable⟩
  have lookup : accessKeyTable.getOne st.maindb { medium := session.medium, address := session.address }
      .uAccessKeyMediumAddress = .ok (true, accesskey) :=
    (invariant .accessKey).getOne_of_key (List.mem_singleton_self _) has (by
      simp only [TableName.table, accessKeyTable, AccessKeyT.getKey, medium, address])
  have gives : Gives ((MasterRequest.getAccessKey data).read st env) st.maincounter
      ⟨none, fun _ => .ok (.getAccessKey (accessKeyReply data accesskey))⟩ st.maincounter := by
    simp only [MasterRequest.read, getAccessKeyAction, gives_bind, gives_lift, gives_pure]
    refine ⟨⟨none, fun _ => .ok (accessKeyReply data accesskey)⟩, _, ⟨session, _, ⟨checked, rfl⟩, (true, accesskey), _,
      ⟨lookup, rfl⟩, ?_⟩, rfl, rfl⟩
    exact gives_pure.mpr ⟨rfl, rfl⟩
  rw [serve_eq_of_gives gives]
  rfl

/-- Without one, a new key is made and committed. -/
theorem getAccessKey_new_gives (plain : ∀ n accesskey, worldOf st.maindb .accessKey n = some accesskey → PlainKey accesskey)
    (plainSession : fmtSep ∉ session.medium) (absent : ¬ HasKey (worldOf st.maindb) session) :
    ∃ transaction, Gives ((MasterRequest.getAccessKey data).read st env) st.maincounter
        ⟨some transaction, fun _ => .ok (.getAccessKey (accessKeyReply data
          (newAccessKey (st.maincounter + 1) env session)))⟩ (st.maincounter + 1) ∧
      transaction.item = accessKeyTable.recordItems none (newAccessKey (st.maincounter + 1) env session) ∧
      Built st.maindb transaction [.add .accessKey (newAccessKey (st.maincounter + 1) env session)] := by
  have invariant := consistent.invariant
  have checked : checkSession st env data.subtok = .ok session := (checkSession_eq_ok_iff invariant).mpr ⟨sid, usable⟩
  have nobody (n : ℕ) (accesskey : AccessKeyT) (has : worldOf st.maindb .accessKey n = some accesskey) :
      accessKeyTable.getKey accesskey .uAccessKeyMediumAddress false ≠
        accessKeyTable.getKey { medium := session.medium, address := session.address } .uAccessKeyMediumAddress false := by
    intro same
    obtain ⟨medium, address⟩ := (accessKey_inj (plain n accesskey has).medium plainSession).mp same
    exact absent ⟨n, accesskey, has, medium, address⟩
  have lookup : accessKeyTable.getOne st.maindb { medium := session.medium, address := session.address }
      .uAccessKeyMediumAddress = .ok (false, { medium := session.medium, address := session.address }) :=
    (invariant .accessKey).getOne_of_no_key (List.mem_singleton_self _) nobody
  have acceptable : accessKeyTable.Acceptable (worldOf st.maindb .accessKey)
      (newAccessKey (st.maincounter + 1) env session) := by
    refine acceptable_new (Nat.succ_ne_zero _) rfl fun keytype member => ?_
    rw [List.mem_singleton.mp member]
    exact nobody
  have free : worldOf st.maindb .accessKey (st.maincounter + 1) = none :=
    consistent.numbered.free .accessKey (Nat.lt_succ_self _)
  have stored : accessKeyTable.insert st.maindb (newAccessKey (st.maincounter + 1) env session) {} false
      "Cannot Insert accesskey" = .ok (TransactionT.append {} ((TableOp.add .accessKey (newAccessKey (st.maincounter + 1)
        env session)).items (worldOf st.maindb))) :=
    (insert_eq_ok_iff .accessKey invariant).mpr ⟨acceptable, .inl free, rfl⟩
  refine ⟨_, ?_, ?_, (Built.start _).insert .accessKey invariant stored List.not_mem_nil⟩
  · simp only [MasterRequest.read, getAccessKeyAction, gives_bind, gives_lift, gives_pure]
    refine ⟨⟨some _, fun _ => .ok (accessKeyReply data (newAccessKey (st.maincounter + 1) env session))⟩, _,
      ⟨session, _, ⟨checked, rfl⟩, (false, _), _, ⟨lookup, rfl⟩, ?_⟩, rfl, rfl⟩
    simp only [Bool.false_eq_true, if_false, gives_bind, gives_getNext, gives_lift, gives_pure]
    exact ⟨_, _, ⟨rfl, rfl⟩, _, _, ⟨stored, rfl⟩, rfl, rfl⟩
  · rw [TransactionT.append_item, TableOp.items]
    change _ ++ accessKeyTable.recordItems (worldOf st.maindb .accessKey (st.maincounter + 1)) _ = _
    rw [free]
    rfl

end Served

section Blobs

/-- The key of a blob is too long to look primary. -/
theorem blobKey_length (blobstore : BlobStoreT) :
    (blobStoreTable.getKey blobstore .uBlobStoreKeyIdTag false).length ≠ keyIdLen + nodeLen := by
  have digits : nodeLen ≤ (hex nodeLen blobstore.keyid).length := by
    rw [hex, List.length_map]
    exact Radix.numeral_length_ge ..
  simp only [blobStoreTable, BlobStoreT.getKey, encodeSecondaryKey, joinParts, KeyPart.format, List.length_append,
    encodeKeyType_length, List.length_cons]
  simp only [keyIdLen]
  omega

variable {st : SharedTable} (consistent : Consistent st) {env : ActionEnv} {bdata : SetBlobDataT} {accesskey : AccessKeyT}

include consistent in
/-- A blob for the key and the tag that were looked up can be stored, and its items put the record, and its key if
it is new. -/
theorem storedBlob_acceptable {found : Bool} {blobstore : BlobStoreT} {id taken : ℕ}
    (looked : LookedUp blobStoreTable (worldOf st.maindb .blobStore) .uBlobStoreKeyIdTag
      { keyid := accesskey.id, tag := bdata.accessblob.tag } (found, blobstore))
    (takes : Gives (takeId found blobstore.id) st.maincounter id taken) :
    blobStoreTable.Acceptable (worldOf st.maindb .blobStore) (storedBlob bdata.accessblob id blobstore) ∧
      (worldOf st.maindb .blobStore id = none ∨ found = true) ∧
      StoreCache.Cachable (blobStoreTable.recordItems (worldOf st.maindb .blobStore id)
        (storedBlob bdata.accessblob id blobstore)) := by
  have represents : blobStoreTable.Represents st.maindb (worldOf st.maindb .blobStore) :=
    consistent.invariant .blobStore
  have isTaken := (gives_takeId.mp takes).1
  have primary := cachable_primary .kBlobStore id (.blobStore (storedBlob bdata.accessblob id blobstore)) false
  cases looked with
  | found n _ has same =>
    have sameId : id = n := isTaken.trans (represents.id_eq n blobstore has)
    refine ⟨acceptable_update represents has sameId (represents.found n blobstore has) fun keytype member => ?_,
      .inr rfl, ?_⟩
    · rw [List.mem_singleton.mp member]
      rfl
    · rw [sameId, has, StoreTable.recordItems_of_same_keys _ fun keytype member => by
        rw [List.mem_singleton.mp member]
        rfl]
      rw [sameId] at primary
      exact primary
  | absent nobody =>
    have isNew : id = st.maincounter + 1 := isTaken
    have free : worldOf st.maindb .blobStore id = none := consistent.numbered.free .blobStore (by omega)
    refine ⟨acceptable_new ?_ rfl fun keytype member => ?_, .inl free, ?_⟩
    · change id ≠ 0
      omega
    · rw [List.mem_singleton.mp member]
      exact nobody
    · rw [free]
      intro item member length
      simp only [StoreTable.recordItems, List.mem_append, List.mem_flatMap] at member
      rcases member with ⟨keytype, inKeys, ofKey⟩ | isPrimary
      · obtain rfl := List.mem_singleton.mp inKeys
        obtain rfl := List.mem_singleton.mp ofKey
        exact (blobKey_length _ length).elim
      · exact primary item isPrimary length

variable (passed : presentedKey st bdata.accessblob.accesskey = .ok accesskey)
include consistent passed

/-- Data presented with a key that passes is stored under the key and its tag, in place of what is there. -/
theorem setBlobData_passed_gives :
    ∃ found blobstore id taken transaction,
      LookedUp blobStoreTable (worldOf st.maindb .blobStore) .uBlobStoreKeyIdTag
        { keyid := accesskey.id, tag := bdata.accessblob.tag } (found, blobstore) ∧
      Gives (takeId found blobstore.id) st.maincounter id taken ∧
      Gives ((MasterRequest.setBlobData bdata).read st env) st.maincounter
        ⟨some transaction, fun _ => .ok (.setBlobData bdata)⟩ taken ∧
      Built st.maindb transaction [.add .blobStore (storedBlob bdata.accessblob id blobstore)] ∧
      StoreCache.Cachable transaction.item := by
  have invariant := consistent.invariant
  have represents : blobStoreTable.Represents st.maindb (worldOf st.maindb .blobStore) := invariant .blobStore
  obtain ⟨⟨found, blobstore⟩, lookup, looked⟩ := represents.getOne_total (List.mem_singleton_self _)
    { keyid := accesskey.id, tag := bdata.accessblob.tag }
  obtain ⟨id, taken, takes⟩ : ∃ id taken, Gives (takeId found blobstore.id) st.maincounter id taken :=
    ⟨_, _, gives_takeId.mpr ⟨rfl, rfl⟩⟩
  obtain ⟨acceptable, allowed, cachable⟩ := @storedBlob_acceptable st consistent bdata accesskey _ _ _ _ looked takes
  have stored : blobStoreTable.insert st.maindb (storedBlob bdata.accessblob id blobstore) {} found "Cannot Insert data" =
      .ok (TransactionT.append {} ((TableOp.add .blobStore (storedBlob bdata.accessblob id blobstore)).items
        (worldOf st.maindb))) := (insert_eq_ok_iff .blobStore invariant).mpr ⟨acceptable, allowed, rfl⟩
  refine ⟨found, blobstore, id, taken, _, looked, takes, ?_, (Built.start _).insert .blobStore invariant stored
    List.not_mem_nil, ?_⟩
  · simp only [MasterRequest.read, setBlobDataAction, gives_bind, gives_lift, gives_pure]
    exact ⟨⟨some _, fun _ => .ok bdata⟩, _, ⟨accesskey, _, ⟨passed, rfl⟩, (found, blobstore), _, ⟨lookup, rfl⟩, id, _,
      takes, _, _, ⟨stored, rfl⟩, rfl, rfl⟩, rfl, rfl⟩
  · rw [TransactionT.append_item]
    exact cachable

/-- Data presented with a key that passes is refused only if it cannot be written. -/
theorem serve_setBlobData_passed : (serve st (.setBlobData bdata) env).1 =
    if env.commit.logPut then
      if env.commit.dataWrite then .ok (.setBlobData bdata) else .error (.badData "Insert failed for data")
    else .error (.badData "Insert failed for log") := by
  obtain ⟨found, blobstore, id, taken, transaction, _, _, gives, built, cachable⟩ :=
    @setBlobData_passed_gives st consistent env bdata accesskey passed
  exact serve_of_accepts gives (built.item_ne_nil (List.mem_singleton_self _)) fun _ => cachable

end Blobs

section Checks

variable {st : SharedTable} {env : ActionEnv} {k : Bytes} {e : Exn}

theorem getBlobData_refused {bdata : GetBlobDataT} (failed : presentedKey st bdata.accessblob.accesskey = .error e) :
    getBlobDataAction st bdata = .error e := by
  simp only [getBlobDataAction, failed]
  rfl

theorem serve_setBlobData_refused {bdata : SetBlobDataT}
    (failed : presentedKey st bdata.accessblob.accesskey = .error e) :
    serve st (.setBlobData bdata) env = (.error e, st) := by
  simp only [serve, runAction, MasterRequest.read, setBlobDataAction, failed]
  rfl

/-- Asking with a key that passes fails only where nothing is stored under the tag. -/
theorem getBlobData_passed (invariant : TableInvariant st.maindb) {bdata : GetBlobDataT} {accesskey : AccessKeyT}
    (passed : presentedKey st bdata.accessblob.accesskey = .ok accesskey) :
    ∃ found blobstore, LookedUp blobStoreTable (worldOf st.maindb .blobStore) .uBlobStoreKeyIdTag
        { keyid := accesskey.id, tag := bdata.accessblob.tag } (found, blobstore) ∧
      getBlobDataAction st bdata = if found then .ok { bdata with
          accessblob := { bdata.accessblob with jsondata := blobstore.jsondata, textdata := blobstore.textdata } }
        else .error (.badData "Tag not found") := by
  obtain ⟨⟨found, blobstore⟩, lookup, looked⟩ := (invariant .blobStore).getOne_total
    (List.mem_singleton_self KeyTypeE.uBlobStoreKeyIdTag) { keyid := accesskey.id, tag := bdata.accessblob.tag }
  refine ⟨found, blobstore, looked, ?_⟩
  simp only [getBlobDataAction, passed, bind, Except.bind]
  rw [show blobStoreTable.getOne st.maindb { keyid := accesskey.id, tag := bdata.accessblob.tag } .uBlobStoreKeyIdTag =
    .ok (found, blobstore) from lookup]
  cases found <;> rfl

theorem verifyAccessKey_eq_ok_iff :
    verifyAccessKeyAction st k = .ok () ↔ ∃ accesskey, presentedKey st k = .ok accesskey := by
  simp only [verifyAccessKeyAction, bind_eq_ok]
  exact ⟨fun ⟨accesskey, passed, _⟩ => ⟨accesskey, passed⟩, fun ⟨accesskey, passed⟩ => ⟨accesskey, passed, rfl⟩⟩

/-- Asking for data is refused for its key exactly if the key does not pass. -/
theorem getBlobData_admits_iff (invariant : TableInvariant st.maindb) (bdata : GetBlobDataT) :
    (∀ e ∈ keyRefusals, getBlobDataAction st bdata ≠ .error e) ↔
      ∃ accesskey, presentedKey st bdata.accessblob.accesskey = .ok accesskey := by
  cases answer : presentedKey st bdata.accessblob.accesskey with
  | error e =>
    refine ⟨fun allowed => (allowed e (presentedKey_refused invariant answer) (getBlobData_refused answer)).elim, ?_⟩
    rintro ⟨_, ⟨⟩⟩
  | ok accesskey =>
    refine ⟨fun _ => ⟨accesskey, rfl⟩, fun _ e refusal failed => ?_⟩
    obtain ⟨found, blobstore, _, outcome⟩ := getBlobData_passed invariant answer
    rw [outcome] at failed
    split at failed
    · contradiction
    · cases failed
      simp [keyRefusals] at refusal

/-- Storing data is refused for its key exactly if the key does not pass. -/
theorem setBlobData_admits_iff (consistent : Consistent st) (bdata : SetBlobDataT) (env : ActionEnv) :
    (∀ e ∈ keyRefusals, (serve st (.setBlobData bdata) env).1 ≠ .error e) ↔
      ∃ accesskey, presentedKey st bdata.accessblob.accesskey = .ok accesskey := by
  cases answer : presentedKey st bdata.accessblob.accesskey with
  | error e =>
    refine ⟨fun allowed => (allowed e (presentedKey_refused consistent.invariant answer)
      (congrArg Prod.fst (serve_setBlobData_refused answer))).elim, ?_⟩
    rintro ⟨_, ⟨⟩⟩
  | ok accesskey =>
    refine ⟨fun _ => ⟨accesskey, rfl⟩, fun _ e refusal failed => ?_⟩
    rw [serve_setBlobData_passed consistent answer] at failed
    split at failed
    · split at failed
      · contradiction
      · cases failed
        simp [keyRefusals] at refusal
    · cases failed
      simp [keyRefusals] at refusal

/-- The checks let a key pass exactly if it is the text of a stored one that can be taken apart. -/
theorem honours_iff (consistent : Consistent st)
    (plain : ∀ n accesskey, worldOf st.maindb .accessKey n = some accesskey → PlainKey accesskey) {returned : Prop} :
    Honours st k returned ↔ ((∃ n accesskey, worldOf st.maindb .accessKey n = some accesskey ∧
      fmtSep ∉ accesskey.address ∧ keyText accesskey = k) ↔ returned) := by
  have invariant := consistent.invariant
  have known : (∃ n accesskey, worldOf st.maindb .accessKey n = some accesskey ∧ fmtSep ∉ accesskey.address ∧
      keyText accesskey = k) ↔ ∃ accesskey, presentedKey st k = .ok accesskey := by
    constructor
    · rintro ⟨n, accesskey, has, address, text⟩
      exact ⟨accesskey, (presentedKey_eq_ok_iff invariant plain).mpr ⟨⟨n, has⟩, address, text⟩⟩
    · rintro ⟨accesskey, passed⟩
      obtain ⟨⟨n, has⟩, address, text⟩ := (presentedKey_eq_ok_iff invariant plain).mp passed
      exact ⟨n, accesskey, has, address, text⟩
  rw [known]
  constructor
  · intro honours
    exact verifyAccessKey_eq_ok_iff.symm.trans honours.verify
  · intro same
    refine ⟨verifyAccessKey_eq_ok_iff.trans same, ?_, ?_⟩
    · rintro bdata rfl
      exact (getBlobData_admits_iff invariant bdata).trans same
    · rintro bdata env rfl
      exact (setBlobData_admits_iff consistent bdata env).trans same

end Checks

/-- What is known of the access keys of a node, whatever was asked for. -/
structure KeysKept (st : SharedTable) : Prop where
  consistent : Consistent st
  served : ∀ n session, worldOf st.maindb .validationSession n = some session →
    session.medium = ascii "email" ∨ session.medium = ascii "msisdn"
  plain : ∀ n accesskey, worldOf st.maindb .accessKey n = some accesskey → PlainKey accesskey

/-- What a request does to the access keys: none is touched or handed out, or the stored one is handed out, or a
new one is stored, which is handed out unless the cache stops the answer. -/
inductive KeyStep (st : SharedTable) (label : ServeStep) : (ℕ → Option AccessKeyT) → Prop
  | silent (quiet : ∀ k, ¬ Returns k st label)
      (unwritten : ∀ data sid session, label.1 = .getAccessKey data → Usable (worldOf st.maindb) data.subtok sid session →
        ¬ HasKey (worldOf st.maindb) session ∧ (label.2.commit.logPut = true → label.2.commit.dataWrite = false)) :
      KeyStep st label (worldOf st.maindb .accessKey)
  | known {data : GetAccessDataT} {sid n : ℕ} {session : ValidationSessionT} {accesskey : AccessKeyT}
      (asks : label.1 = .getAccessKey data) (usable : Usable (worldOf st.maindb) data.subtok sid session)
      (has : worldOf st.maindb .accessKey n = some accesskey) (medium : accesskey.medium = session.medium)
      (address : accesskey.address = session.address) (returns : ∀ k, Returns k st label ↔ keyText accesskey = k) :
      KeyStep st label (worldOf st.maindb .accessKey)
  | made {data : GetAccessDataT} {sid : ℕ} {session : ValidationSessionT}
      (asks : label.1 = .getAccessKey data) (usable : Usable (worldOf st.maindb) data.subtok sid session)
      (absent : ¬ HasKey (worldOf st.maindb) session) (logged : label.2.commit.logPut = true)
      (written : label.2.commit.dataWrite = true) (free : worldOf st.maindb .accessKey (st.maincounter + 1) = none)
      (returns : ∀ k, Returns k st label ↔
        keyText (newAccessKey (st.maincounter + 1) label.2 session) = k ∧ ¬ CacheStops st session) :
      KeyStep st label (Function.update (worldOf st.maindb .accessKey) (st.maincounter + 1)
        (some (newAccessKey (st.maincounter + 1) label.2 session)))

theorem newAccessKey_plain {id : ℕ} {env : ActionEnv} {session : ValidationSessionT} (plain : fmtSep ∉ session.medium) :
    PlainKey (newAccessKey id env session) := by
  refine ⟨plain, fun member => ?_⟩
  simp [newAccessKey] at member

theorem plain_of_served {medium : Bytes} (served : medium = ascii "email" ∨ medium = ascii "msisdn") :
    fmtSep ∉ medium := by
  rcases served with rfl | rfl <;> decide

theorem served_of_populated {reqtok : RequestTokenT} {medium address : Bytes}
    (populated : populateAddress reqtok medium = .ok address) :
    medium = ascii "email" ∨ medium = ascii "msisdn" := by
  rw [populateAddress] at populated
  split at populated
  · next email => exact .inl email
  · split at populated
    · next msisdn => exact .inr msisdn
    · contradiction

/-- Only a request for a key, for a session that it may use, writes keys. -/
theorem Writes.accessKey_kept {world : World} {hostname : Bytes} {env : ActionEnv} {counter counter' : ℕ}
    {request : MasterRequest} {ops : List TableOp} (writes : Writes world hostname env counter request ops counter')
    (other : ∀ data sid session, request = .getAccessKey data → ¬ Usable world data.subtok sid session) :
    ops.foldl TableOp.apply world .accessKey = world .accessKey := by
  have frame := Writes.frame .accessKey writes
  cases writes with
  | getAccessKey usable => exact (other _ _ _ rfl usable).elim
  | requestToken | submitToken | bind3pid | storeInvite | pending | setBlobData =>
    exact frame (by simp [MasterRequest.tables])

theorem accessKey_kept {st : SharedTable} (invariant : TableInvariant st.maindb) {request : MasterRequest}
    (other : ∀ data sid session, request = .getAccessKey data → ¬ Usable (worldOf st.maindb) data.subtok sid session)
    (env : ActionEnv) : worldOf (serve st request env).2.maindb .accessKey = worldOf st.maindb .accessKey := by
  obtain ⟨_, same | ⟨ops, writes, _, _, represents⟩⟩ := serve_cases invariant request env
  · rw [← same.world_eq]
  · rw [← represents.world_eq]
    exact writes.accessKey_kept other

theorem KeysKept.serve_keyStep {st : SharedTable} (kept : KeysKept st) (label : ServeStep) :
    KeyStep st label (worldOf (serveStep st label).maindb .accessKey) := by
  have invariant := kept.consistent.invariant
  obtain ⟨request, env⟩ := label
  by_cases asks : ∃ data sid session, request = .getAccessKey data ∧ Usable (worldOf st.maindb) data.subtok sid session
  · obtain ⟨data, sid, session, rfl, usable⟩ := asks
    by_cases stored : HasKey (worldOf st.maindb) session
    · obtain ⟨n, accesskey, has, medium, address⟩ := stored
      have served := @serve_getAccessKey_stored st kept.consistent env data sid session usable n accesskey has medium
        address
      rw [show (serveStep st (.getAccessKey data, env)) = st from congrArg Prod.snd served]
      refine .known rfl usable has medium address fun k => ?_
      simp only [Returns, served]
      constructor
      · rintro ⟨_, _, ⟨⟩, ⟨⟩, answer⟩
        rwa [keyText_reply] at answer
      · intro answer
        exact ⟨data, _, rfl, rfl, (keyText_reply data accesskey).trans answer⟩
    · have media := kept.served sid session usable.has
      obtain ⟨transaction, gives, items, built⟩ := @getAccessKey_new_gives st kept.consistent env data sid session usable
        kept.plain (plain_of_served media) stored
      have nonempty := built.item_ne_nil (List.mem_singleton_self _)
      have after := (serve_of_gives invariant gives rfl built).2
      have answered (k : Bytes) : Returns k st (.getAccessKey data, env) ↔
          keyText (newAccessKey (st.maincounter + 1) env session) = k ∧ env.commit.logPut = true ∧
            env.commit.dataWrite = true ∧ ¬ CacheStops st session := by
        have accepts : CacheAccepts st transaction ↔ ¬ CacheStops st session := by
          rw [CacheAccepts, items, cachable_newKey, cachable_indexKey media]
          simp only [CacheStops, not_and]
          rfl
        constructor
        · rintro ⟨_, reply, ⟨⟩, ok, answer⟩
          obtain ⟨replied, logged, written, accepted⟩ := (serve_ok_iff gives nonempty).mp ok
          obtain rfl := MasterRequest.getAccessKey.inj replied
          exact ⟨(keyText_reply ..).symm.trans answer, logged, written, accepts.mp accepted⟩
        · rintro ⟨answer, logged, written, passes⟩
          exact ⟨data, _, rfl, (serve_ok_iff gives nonempty).mpr ⟨rfl, logged, written, accepts.mpr passes⟩,
            (keyText_reply ..).trans answer⟩
      by_cases written : (env.commit.logPut && env.commit.dataWrite) = true
      · obtain ⟨logged, wrote⟩ := (Bool.and_eq_true _ _).mp written
        rw [if_pos written] at after
        rw [serveStep, ← after.world_eq, List.foldl_cons, List.foldl_nil, apply_add_self]
        refine .made rfl usable stored logged wrote (kept.consistent.numbered.free .accessKey (Nat.lt_succ_self _))
          fun k => ?_
        rw [answered]
        simp only [logged, wrote, true_and]
      · rw [if_neg written] at after
        rw [serveStep, ← after.world_eq]
        refine .silent (fun k returns => ?_) fun data' sid' session' isAsk usable' => ?_
        · obtain ⟨_, logged, wrote, _⟩ := (answered k).mp returns
          exact written ((Bool.and_eq_true _ _).mpr ⟨logged, wrote⟩)
        · obtain rfl := MasterRequest.getAccessKey.inj isAsk
          rw [← usable.unique usable']
          exact ⟨stored, fun logged => Bool.eq_false_iff.mpr fun wrote =>
            written ((Bool.and_eq_true _ _).mpr ⟨logged, wrote⟩)⟩
  · have other (data : GetAccessDataT) (sid : ℕ) (session : ValidationSessionT) (isAsk : request = .getAccessKey data) :
        ¬ Usable (worldOf st.maindb) data.subtok sid session :=
      fun usable => asks ⟨data, sid, session, isAsk, usable⟩
    rw [serveStep, accessKey_kept invariant other]
    refine .silent ?_ fun data sid session isAsk usable => (other data sid session isAsk usable).elim
    rintro k ⟨data, reply, isAsk, answered, _⟩
    change request = _ at isAsk
    subst isAsk
    obtain ⟨sid, session, usable⟩ := usable_of_getAccessKey kept.consistent answered
    exact other data sid session rfl usable

theorem KeysKept.step {st : SharedTable} (kept : KeysKept st) (label : ServeStep) : KeysKept (serveStep st label) := by
  refine ⟨kept.consistent.serve label.1 label.2, fun n session has => ?_, fun n accesskey has => ?_⟩
  · exact serve_sessionMedium (P := fun medium => medium = ascii "email" ∨ medium = ascii "msisdn")
      kept.consistent.invariant label (fun _ _ _ => served_of_populated) (kept.served n) has
  · have step := kept.serve_keyStep label
    generalize worldOf (serveStep st label).maindb .accessKey = after at step has
    cases step with
    | silent => exact kept.plain n accesskey has
    | known => exact kept.plain n accesskey has
    | @made data sid session asks usable =>
      rw [Function.update_apply] at has
      split at has
      · obtain rfl := Option.some.inj has
        exact newAccessKey_plain (plain_of_served (kept.served sid session usable.has))
      · exact kept.plain n accesskey has

theorem EmptyStore.keysKept {st : SharedTable} (empty : EmptyStore st) : KeysKept st :=
  ⟨empty.consistent, fun n session has => (empty.nothing .validationSession n session has).elim,
    fun n accesskey has => (empty.nothing .accessKey n accesskey has).elim⟩

section History

variable (start : SharedTable)

/-- The run handed the key out. -/
def Returned (past : List ServeStep) (k : Bytes) : Prop := ∃ j, Run.Occurs serveStep (Returns k) start past j

/-- After the run, the keys that pass are those that it handed out. -/
def PassesReturned (past : List ServeStep) : Prop :=
  ∀ k, Honours (Run.final serveStep start past) k (Returned start past k)

/-- What was handed out is stored, and what is stored was handed out if it can be taken apart, and otherwise not. -/
structure KeysTold (past : List ServeStep) : Prop where
  kept : KeysKept (Run.final serveStep start past)
  stored : ∀ k, Returned start past k → ∃ n accesskey,
    worldOf (Run.final serveStep start past).maindb .accessKey n = some accesskey ∧ keyText accesskey = k
  told : ∀ n accesskey, worldOf (Run.final serveStep start past).maindb .accessKey n = some accesskey →
    (fmtSep ∉ accesskey.address ↔ Returned start past (keyText accesskey))

variable {start}

theorem returned_concat {past : List ServeStep} {label : ServeStep} {k : Bytes} :
    Returned start (past ++ [label]) k ↔
      Returned start past k ∨ Returns k (Run.final serveStep start past) label := by
  constructor
  · rintro ⟨j, occurs⟩
    rcases occurs.cases_append with earlier | ⟨_, here⟩
    · exact .inl ⟨j, earlier⟩
    · exact .inr here
  · rintro (⟨j, earlier⟩ | here)
    · exact ⟨j, earlier.append [label]⟩
    · exact ⟨past.length, Run.occurs_last.mpr here⟩

/-- The keys that pass are those that were handed out, if each stored one was handed out exactly if it can be
taken apart. -/
theorem passesReturned_iff {past : List ServeStep} (kept : KeysKept (Run.final serveStep start past))
    (stored : ∀ k, Returned start past k → ∃ n accesskey,
      worldOf (Run.final serveStep start past).maindb .accessKey n = some accesskey ∧ keyText accesskey = k) :
    PassesReturned start past ↔ ∀ n accesskey,
      worldOf (Run.final serveStep start past).maindb .accessKey n = some accesskey →
        (fmtSep ∉ accesskey.address ↔ Returned start past (keyText accesskey)) := by
  simp only [PassesReturned, honours_iff kept.consistent kept.plain]
  constructor
  · intro passes n accesskey has
    rw [← passes]
    constructor
    · exact fun address => ⟨n, accesskey, has, address, rfl⟩
    · rintro ⟨m, other, hasOther, address, text⟩
      have same := (keyText_inj (kept.plain m other hasOther) (kept.plain n accesskey has) text).2.1
      rwa [← same]
  · intro told k
    constructor
    · rintro ⟨n, accesskey, has, address, rfl⟩
      exact (told n accesskey has).mp address
    · intro returned
      obtain ⟨n, accesskey, has, rfl⟩ := stored k returned
      exact ⟨n, accesskey, has, (told n accesskey has).mpr returned, rfl⟩

theorem KeysTold.stored_step {past : List ServeStep} (keys : KeysTold start past) (label : ServeStep) (k : Bytes)
    (returned : Returned start (past ++ [label]) k) : ∃ n accesskey,
      worldOf (Run.final serveStep start (past ++ [label])).maindb .accessKey n = some accesskey ∧
        keyText accesskey = k := by
  rw [returned_concat] at returned
  rw [Run.final_concat]
  have step := keys.kept.serve_keyStep label
  generalize worldOf (serveStep (Run.final serveStep start past) label).maindb .accessKey = after at step ⊢
  cases step with
  | silent quiet => exact keys.stored k (returned.resolve_right (quiet k))
  | known asks usable has medium address returns =>
    rcases returned with earlier | now
    · exact keys.stored k earlier
    · exact ⟨_, _, has, (returns k).mp now⟩
  | made asks usable absent logged written free returns =>
    rcases returned with earlier | now
    · obtain ⟨n, accesskey, has, text⟩ := keys.stored k earlier
      refine ⟨n, accesskey, ?_, text⟩
      rw [Function.update_of_ne, has]
      rintro rfl
      rw [free] at has
      contradiction
    · exact ⟨_, _, Function.update_self .., ((returns k).mp now).1⟩

/-- One more request keeps the keys that pass those that were handed out, exactly if it is no request for a key,
or for one that is handed out if and only if it can be taken apart. -/
theorem KeysTold.told_step_iff {past : List ServeStep} (keys : KeysTold start past) (label : ServeStep) :
    (∀ n accesskey, worldOf (Run.final serveStep start (past ++ [label])).maindb .accessKey n = some accesskey →
      (fmtSep ∉ accesskey.address ↔ Returned start (past ++ [label]) (keyText accesskey))) ↔
    KeyHonoured (Run.final serveStep start past) label := by
  simp only [returned_concat, Run.final_concat]
  have step := keys.kept.serve_keyStep label
  generalize worldOf (serveStep (Run.final serveStep start past) label).maindb .accessKey = after at step ⊢
  cases step with
  | silent quiet unwritten =>
    constructor
    · intro _ data sid session asks usable
      obtain ⟨absent, fails⟩ := unwritten data sid session asks usable
      refine ⟨fun present => (absent present).elim, fun _ logged written => ?_⟩
      rw [fails logged] at written
      contradiction
    · intro _ n accesskey has
      simp only [quiet, or_false]
      exact keys.told n accesskey has
  | @known data sid m session known asks usable hasKnown medium address returns =>
    constructor
    · intro told data' sid' session' asks' usable'
      obtain rfl := MasterRequest.getAccessKey.inj (asks.symm.trans asks')
      obtain rfl := usable.unique usable'
      refine ⟨fun _ => ?_, fun absent => (absent ⟨m, known, hasKnown, medium, address⟩).elim⟩
      rw [← address]
      exact (told m known hasKnown).mpr (.inr ((returns _).mpr rfl))
    · intro honoured n accesskey has
      rw [keys.told n accesskey has]
      refine ⟨.inl, ?_⟩
      rintro (earlier | now)
      · exact earlier
      · rw [← keys.told n accesskey has]
        have same := keyText_inj (keys.kept.plain m known hasKnown) (keys.kept.plain n accesskey has)
          ((returns _).mp now)
        rw [← same.2.1, address]
        exact (honoured data sid session asks usable).1 ⟨m, known, hasKnown, medium, address⟩
  | @made data sid session asks usable absent logged written free returns =>
    have plainNew : PlainKey (newAccessKey ((Run.final serveStep start past).maincounter + 1) label.2 session) :=
      newAccessKey_plain (plain_of_served (keys.kept.served sid session usable.has))
    -- the text of the new key was never handed out, and is that of no other stored key
    have isNew {n : ℕ} {accesskey : AccessKeyT}
        (has : worldOf (Run.final serveStep start past).maindb .accessKey n = some accesskey) :
        keyText (newAccessKey ((Run.final serveStep start past).maincounter + 1) label.2 session) ≠
          keyText accesskey := by
      intro same
      obtain ⟨medium, address, _⟩ := keyText_inj plainNew (keys.kept.plain n accesskey has) same
      exact absent ⟨n, accesskey, has, medium.symm, address.symm⟩
    have unreturned : ¬ Returned start past
        (keyText (newAccessKey ((Run.final serveStep start past).maincounter + 1) label.2 session)) := by
      intro returned
      obtain ⟨n, accesskey, has, text⟩ := keys.stored _ returned
      exact isNew has text.symm
    constructor
    · intro told data' sid' session' asks' usable'
      obtain rfl := MasterRequest.getAccessKey.inj (asks.symm.trans asks')
      obtain rfl := usable.unique usable'
      refine ⟨fun present => (absent present).elim, fun _ _ _ => ?_⟩
      have new := told _ _ (Function.update_self ..)
      rw [returns, or_iff_right unreturned] at new
      exact new.trans (and_iff_right rfl)
    · intro honoured n accesskey has
      have guard := (honoured data sid session asks usable).2 absent logged written
      rw [Function.update_apply] at has
      split at has
      · obtain rfl := Option.some.inj has
        rw [returns, or_iff_right unreturned]
        exact guard.trans (and_iff_right rfl).symm
      · rw [returns, or_iff_left fun now => isNew has now.1]
        exact keys.told n accesskey has

/-- In every run of requests on an empty store, the keys that pass the checks are at each moment those that were
handed out before, exactly if every request for a key is for an address that keeps off the separator, and no new
key stops the cache; a key that does both is neither handed out nor passes. -/
theorem keys_honoured_iff (empty : EmptyStore start) (labels : List ServeStep) :
    (∀ i, PassesReturned start (labels.take i)) ↔ Run.Guarded serveStep KeyHonoured start labels := by
  have never (k : Bytes) : ¬ Returned start [] k := fun ⟨_, occurs⟩ => Nat.not_lt_zero _ occurs.lt
  refine @Run.prefixes_iff_guarded _ _ serveStep (PassesReturned start) (KeysTold start) KeyHonoured start
    (fun past keys => (passesReturned_iff keys.kept keys.stored).mpr keys.told) (fun past label keys => ?_)
    (fun past label keys guard => ?_) ?_ labels
  · rw [← keys.told_step_iff label]
    refine passesReturned_iff ?_ (keys.stored_step label)
    rw [Run.final_concat]
    exact keys.kept.step label
  · refine ⟨?_, keys.stored_step label, (keys.told_step_iff label).mpr guard⟩
    rw [Run.final_concat]
    exact keys.kept.step label
  · exact ⟨empty.keysKept, fun k returned => (never k returned).elim,
      fun n accesskey has => (empty.nothing .accessKey n accesskey has).elim⟩

end History

/-- A user validates an address with a separator in it and asks for its key. -/
def keyForColon : List ServeStep :=
  [(tokenRequest "a:b@x.com" "q" 1, { currtime := 1000000, commit := { now := 1000000 } }),
    (.submitToken { subtok := { sid := ascii "2", clientSecret := ascii "q", token := ascii "111111" } },
      { currtime := 1000001, commit := { now := 1000001 } }),
    (.getAccessKey { subtok := { sid := ascii "2", clientSecret := ascii "q" } },
      { currtime := 1000002, commit := { now := 1000002 }, uuid := ascii "1b4e28ba" })]

/-- The key is handed out and refused. -/
theorem keyForColon_refused : EmptyStore emptyMaster ∧
    ¬ Honours (Run.final serveStep emptyMaster keyForColon) (ascii "email:a:b@x.com:1b4e28ba")
      (Returned emptyMaster keyForColon (ascii "email:a:b@x.com:1b4e28ba")) := by
  refine ⟨rfl, fun honours => ?_⟩
  have answered : (serve (Run.final serveStep emptyMaster (keyForColon.take 2)) keyForColon[2].1 keyForColon[2].2).1 =
      .ok (.getAccessKey { subtok := { sid := ascii "2", clientSecret := ascii "q" }, accessblob :=
        { accesskey := ascii "email:a:b@x.com:1b4e28ba" } }) := by decide +kernel
  have refused : verifyAccessKeyAction (Run.final serveStep emptyMaster keyForColon) (ascii "email:a:b@x.com:1b4e28ba") =
      .error (.badData "Bad Accesskey") := by decide +kernel
  have passed := honours.verify.mpr ⟨2, _, rfl, _, _, rfl, answered, rfl⟩
  rw [refused] at passed
  contradiction

theorem keys_honoured_iff_keyForColon :
    (∀ i, PassesReturned emptyMaster (keyForColon.take i)) ↔ Run.Guarded serveStep KeyHonoured emptyMaster keyForColon :=
  keys_honoured_iff emptyStore_emptyMaster keyForColon

end Identt.Hrpc
