import Identt.Hrpc.AssocPairs

/-! # What a request can rely on until it commits

Between its reads and its commit a request is overtaken by others. New records keep the identifiers that were
taken for them; records that are updated stay, and keep their keys, but for a published association, whose
index entry another binding may have moved already. So the items that a transaction was built of stay good,
as long as nobody takes a unique key of one of its records.
-/

namespace Identt.Hrpc

open Store Query ReadM ValidateService ThreePidService

/-- What the records of an operation were when it was made, and are now; the identifiers between `lo` and `hi`
were taken for the request it belongs to. -/
inductive Standing (before now : World) (lo hi : ℕ) : TableOp → Prop
  | unkeyed (op : TableOp) (none : op.name.table.secondaryKeys = []) : Standing before now lo hi op
  | new (name : TableName) (record : name.Record) (above : lo < name.table.id record)
      (upTo : name.table.id record ≤ hi) (wasFree : before name (name.table.id record) = none)
      (free : now name (name.table.id record) = none) : Standing before now lo hi (.add name record)
  | steady (name : TableName) (record old cur : name.Record) (other : name ≠ .globalAssoc)
      (had : before name (name.table.id record) = some old) (has : now name (name.table.id record) = some cur)
      (same : ∀ keytype ∈ name.table.secondaryKeys,
        name.table.getKey old keytype false = name.table.getKey record keytype false ∧
          name.table.getKey cur keytype false = name.table.getKey record keytype false) :
      Standing before now lo hi (.add name record)
  | published (record old cur : GlobalAssocT) (number : old.id = record.id)
      (had : before .globalAssoc record.id = some old) (has : now .globalAssoc record.id = some cur)
      (oldOrigin : globalAssocTable.getKey old .uGlobalAssocOriginServerOriginId false =
        globalAssocTable.getKey record .uGlobalAssocOriginServerOriginId false)
      (origin : globalAssocTable.getKey cur .uGlobalAssocOriginServerOriginId false =
        globalAssocTable.getKey record .uGlobalAssocOriginServerOriginId false)
      (address : globalAssocTable.getKey cur .iGlobalAssocMediumAddress false =
          globalAssocTable.getKey old .iGlobalAssocMediumAddress false ∨
        globalAssocTable.getKey cur .iGlobalAssocMediumAddress false =
          globalAssocTable.getKey record .iGlobalAssocMediumAddress false) :
      Standing before now lo hi (.add .globalAssoc record)

/-- What makes a record acceptable, whatever is stored. -/
def WellFormed : TableOp → Prop
  | .add name record => name.table.id record ≠ 0 ∧ name.table.notfound record = false
  | .del name _ => name.table.secondaryKeys = []

/-- A request that has read: the world it read, the operations of its transaction, and the counter before and after
its reads. -/
structure Reading where
  before : World
  ops : List TableOp
  lo : ℕ
  hi : ℕ

namespace Reading

def items (reading : Reading) : List TransItemT := reading.ops.flatMap (TableOp.items reading.before)

/-- What a request that waits to commit can rely on. -/
structure Waits (reading : Reading) (now : World) : Prop where
  standing : ∀ op ∈ reading.ops, Standing reading.before now reading.lo reading.hi op
  wellFormed : ∀ op ∈ reading.ops, WellFormed op
  separate : reading.ops.Pairwise TableOp.Unaffected
  alone : reading.ops.Pairwise fun first second => second.name = first.name → second.name.table.uniqueKeys = []
  pairs : ∀ published : GlobalAssocT, TableOp.add .globalAssoc published ∈ reading.ops →
    ∃ assoc : LocalAssocT, TableOp.add .localAssoc assoc ∈ reading.ops ∧ published.originId = assoc.id ∧
      joinParts [.strn published.medium, .strn published.address] = joinParts [.strn assoc.medium, .strn assoc.address]

end Reading

/-- An operation would append now what it appended then, or fits at least; only published associations need the
latter. -/
theorem Standing.items_eq {db : DB} {before now : World} (represents : RepresentsAll db now) {lo hi : ℕ} {op : TableOp}
    (standing : Standing before now lo hi op) :
    op.items before = op.items now ∨ op.name = .globalAssoc ∧ op.Fits before now := by
  cases standing with
  | unkeyed op none =>
    left
    cases op with
    | add name record =>
      have noKeys : name.table.secondaryKeys = [] := none
      simp only [TableOp.items, StoreTable.recordItems, noKeys, List.flatMap_nil]
    | del name record => rfl
  | new name record above upTo wasFree free => exact .inl (by rw [TableOp.items, TableOp.items, wasFree, free])
  | steady name record old cur other had has same =>
    left
    rw [TableOp.items, TableOp.items, had, has, name.table.recordItems_of_same_keys fun keytype member =>
      (same keytype member).1, name.table.recordItems_of_same_keys fun keytype member => (same keytype member).2]
  | published record old cur number had has oldOrigin origin address =>
    right
    refine ⟨rfl, fun keytype member => ?_⟩
    change globalAssocTable.Fits (now .globalAssoc) record keytype (before .globalAssoc record.id)
    rw [had]
    rcases StoreTable.mem_secondaryKeys.mp member with unique | index
    · rw [List.mem_singleton.mp unique]
      exact .kept old cur has (origin.trans oldOrigin.symm)
    · obtain rfl := List.mem_singleton.mp index
      by_cases stayed : globalAssocTable.getKey cur .iGlobalAssocMediumAddress false =
          globalAssocTable.getKey old .iGlobalAssocMediumAddress false
      · exact .kept old cur has stayed
      · refine .moved old cur has (address.resolve_left stayed) fun n other hasOther same => ?_
        -- the old entry ends in the number of this very association
        have sameId := globalAssocTable.getKey_index other old _ index same
        have numberOther : other.id = n := (represents .globalAssoc).id_eq n other hasOther
        have here : n = record.id := numberOther.symm.trans (sameId.trans number)
        rw [here] at hasOther
        obtain rfl := Option.some.inj (hasOther.symm.trans has)
        exact stayed same

/-- A well-formed operation is accepted as long as nobody takes a unique key of its record. -/
theorem WellFormed.accepted {op : TableOp} (wellFormed : WellFormed op) {now : World}
    (unclashing : ∀ (name : TableName) (record : name.Record), op = .add name record →
      ¬ name.table.Taken (now name) record) : op.Accepted now := by
  cases op with
  | add name record => exact ⟨wellFormed.1, wellFormed.2, unclashing name record rfl⟩
  | del name record => exact TableOp.accepted_del wellFormed now record

/-- A waiting request carries its operations out, if nobody has taken a unique key of one of its records. -/
theorem Reading.Waits.commits {reading : Reading} {db : DB} {now : World} (waits : reading.Waits now)
    (represents : RepresentsAll db now)
    (unclashing : ∀ (name : TableName) (record : name.Record), .add name record ∈ reading.ops →
      ¬ name.table.Taken (now name) record) :
    RepresentsAll (applyItems db reading.items) (reading.ops.foldl TableOp.apply now) := by
  refine represents.applyAll_of_fits (fun op member => ?_) waits.separate (fun op member => ?_) ?_
  · exact (waits.wellFormed op member).accepted fun name record same => unclashing name record (same ▸ member)
  · exact ((waits.standing op member).items_eq represents).imp_right And.right
  · refine waits.alone.imp_of_mem fun _ inSecond alone sameName => ?_
    rcases (waits.standing _ inSecond).items_eq represents with same | ⟨isGlobal, _⟩
    · exact same
    · have noUnique := alone sameName
      rw [isGlobal] at noUnique
      contradiction

/-- Associations of one number are indexed alike for joined media and addresses that are the same. -/
theorem addressKey_congr {left right : GlobalAssocT}
    (address : joinParts [.strn left.medium, .strn left.address] = joinParts [.strn right.medium, .strn right.address])
    (id : left.id = right.id) : globalAssocTable.getKey left .iGlobalAssocMediumAddress false =
      globalAssocTable.getKey right .iGlobalAssocMediumAddress false := by
  change encodeKeyType _ ++ joinParts ([.strn left.medium, .strn left.address] ++ [.uint left.id]) =
    encodeKeyType _ ++ joinParts ([.strn right.medium, .strn right.address] ++ [.uint right.id])
  rw [joinParts_concat (List.cons_ne_nil _ _), joinParts_concat (List.cons_ne_nil _ _), address, id]

section Overtaken

variable {reading other : Reading} {now : World}

/-- The identifiers taken for two requests are different ones. -/
def Reading.Apart (reading other : Reading) : Prop := reading.hi ≤ other.lo ∨ other.hi ≤ reading.lo

/-- Two bindings that publish for one origin do so for the same address. -/
theorem Reading.Waits.same_address (waits : reading.Waits now) (waitsOther : other.Waits now)
    (apart : reading.Apart other) {published published' : GlobalAssocT}
    (member : TableOp.add .globalAssoc published ∈ reading.ops)
    (member' : TableOp.add .globalAssoc published' ∈ other.ops) (origin : published.originId = published'.originId) :
    joinParts [.strn published.medium, .strn published.address] =
      joinParts [.strn published'.medium, .strn published'.address] := by
  obtain ⟨assoc, inOps, number, address⟩ := waits.pairs published member
  obtain ⟨assoc', inOther, number', address'⟩ := waitsOther.pairs published' member'
  have sameId : assoc.id = assoc'.id := number.symm.trans (origin.trans number')
  have standing := waits.standing _ inOps
  have standing' := waitsOther.standing _ inOther
  rw [address, address']
  cases standing with
  | unkeyed _ none => contradiction
  | new _ _ above upTo wasFree free =>
    change reading.lo < assoc.id at above
    change assoc.id ≤ reading.hi at upTo
    change now .localAssoc assoc.id = none at free
    cases standing' with
    | unkeyed _ none => contradiction
    | new _ _ above' upTo' =>
      change other.lo < assoc'.id at above'
      change assoc'.id ≤ other.hi at upTo'
      rcases apart with before | after <;> omega
    | steady _ _ old cur _ had has =>
      change now .localAssoc assoc'.id = some cur at has
      rw [← sameId, free] at has
      contradiction
  | steady _ _ old cur _ had has same =>
    change now .localAssoc assoc.id = some cur at has
    cases standing' with
    | unkeyed _ none => contradiction
    | new _ _ above' upTo' wasFree' free' =>
      change now .localAssoc assoc'.id = none at free'
      rw [← sameId, has] at free'
      contradiction
    | steady _ _ old' cur' _ had' has' same' =>
      change now .localAssoc assoc'.id = some cur' at has'
      rw [← sameId, has] at has'
      obtain rfl := Option.some.inj has'
      have key := (same _ (List.mem_singleton_self _)).2
      have key' := (same' _ (List.mem_singleton_self _)).2
      exact List.append_cancel_left (key.symm.trans key')

/-- What a transaction leaves in one place: what was there, or what one of its operations put or deleted. -/
theorem foldl_apply_cases (ops : List TableOp) (world : World) (name : TableName) (n : ℕ) :
    ops.foldl TableOp.apply world name n = world name n ∨
    (∃ record : name.Record, .add name record ∈ ops ∧ name.table.id record = n ∧
      ops.foldl TableOp.apply world name n = some record) ∨
    ∃ record : name.Record, .del name record ∈ ops := by
  induction ops generalizing world with
  | nil => exact .inl rfl
  | cons op rest ih =>
    rw [List.foldl_cons]
    rcases ih (op.apply world) with same | ⟨record, member, number, result⟩ | ⟨record, member⟩
    · rw [same]
      rcases eq_or_ne op.name name with rfl | other
      · cases op with
        | add opName added =>
          simp only [TableOp.name, apply_add_self]
          rcases eq_or_ne n (opName.table.id added) with rfl | elsewhere
          · exact .inr (.inl ⟨added, List.mem_cons_self .., rfl, Function.update_self ..⟩)
          · exact .inl (Function.update_of_ne elsewhere ..)
        | del opName removed => exact .inr (.inr ⟨removed, List.mem_cons_self ..⟩)
      · rw [TableOp.apply_of_ne world op other.symm]
        exact .inl rfl
    · exact .inr (.inl ⟨record, List.mem_cons_of_mem _ member, number, result⟩)
    · exact .inr (.inr ⟨record, List.mem_cons_of_mem _ member⟩)

/-- Only what is stored under the record's own number matters. -/
theorem Standing.congr {before now' : World} {lo hi : ℕ} {name : TableName} {record : name.Record}
    (standing : Standing before now lo hi (.add name record))
    (same : now' name (name.table.id record) = now name (name.table.id record)) :
    Standing before now' lo hi (.add name record) := by
  cases standing with
  | unkeyed _ none => exact .unkeyed _ none
  | new _ _ above upTo wasFree free => exact .new _ _ above upTo wasFree (same.trans free)
  | steady _ _ old cur other had has keys => exact .steady _ _ old cur other had (same.trans has) keys
  | published _ old cur number had has oldOrigin origin address =>
    exact .published _ old cur number had (same.trans has) oldOrigin origin address

/-- The commit of another request leaves a waiting one what it relies on. -/
theorem Reading.Waits.standing_after (waits : reading.Waits now) (waitsOther : other.Waits now)
    (apart : reading.Apart other) {op : TableOp} (member : op ∈ reading.ops) :
    Standing reading.before (other.ops.foldl TableOp.apply now) reading.lo reading.hi op := by
  have standing := waits.standing op member
  cases op with
  | del name record => exact .unkeyed _ (waits.wellFormed _ member)
  | add name record =>
    rcases foldl_apply_cases other.ops now name (name.table.id record) with
      same | ⟨record', inOther, sameId, result⟩ | ⟨record', inOther⟩
    · exact standing.congr same
    · have standing' := waitsOther.standing _ inOther
      cases standing with
      | unkeyed _ none => exact .unkeyed _ none
      | new _ _ above upTo wasFree free =>
        -- nobody else can have the number
        cases standing' with
        | unkeyed _ none => exact .unkeyed _ none
        | new _ _ above' upTo' =>
          rw [sameId] at above' upTo'
          rcases apart with before | after <;> omega
        | steady _ _ old cur _ had has =>
          rw [sameId, free] at has
          contradiction
        | published record' old cur number had has =>
          rw [show record'.id = globalAssocTable.id record from sameId] at has
          change now .globalAssoc (globalAssocTable.id record) = none at free
          rw [free] at has
          contradiction
      | steady _ _ old cur notGlobal had has same =>
        cases standing' with
        | unkeyed _ none => exact .unkeyed _ none
        | new _ _ above' upTo' wasFree' free' =>
          rw [sameId, has] at free'
          contradiction
        | steady _ _ old' cur' _ had' has' same' =>
          rw [sameId, has] at has'
          obtain rfl := Option.some.inj has'
          exact .steady _ _ old record' notGlobal had result fun keytype inKeys =>
            ⟨(same keytype inKeys).1, (same' keytype inKeys).2.symm.trans (same keytype inKeys).2⟩
        | published => contradiction
      | published record old cur number had has oldOrigin origin address =>
        cases standing' with
        | unkeyed _ none => contradiction
        | new _ _ above' upTo' wasFree' free' =>
          rw [sameId] at free'
          change now .globalAssoc record.id = none at free'
          rw [has] at free'
          contradiction
        | steady _ _ _ _ notGlobal => contradiction
        | published record' old' cur' number' had' has' oldOrigin' origin' address' =>
          rw [show record'.id = record.id from sameId, has] at has'
          obtain rfl := Option.some.inj has'
          have sameOrigin := (globalKey_inj.mp (origin.symm.trans origin')).2
          have sameAddress := waits.same_address waitsOther apart member inOther sameOrigin
          exact .published _ old record' number had result oldOrigin (origin'.symm.trans origin)
            (.inr (addressKey_congr sameAddress.symm sameId))
    · exact .unkeyed _ (waitsOther.wellFormed _ inOther)

end Overtaken

section Reads

variable {db : DB} {world : World} {lo hi : ℕ}

/-- A record that is there is updated with its keys. -/
theorem standing_of_stored {name : TableName} (other : name ≠ .globalAssoc) (represents : RepresentsAll db world) {n : ℕ}
    {record written : name.Record} (has : world name n = some record)
    (number : name.table.id written = name.table.id record)
    (keys : ∀ keytype ∈ name.table.secondaryKeys,
      name.table.getKey record keytype false = name.table.getKey written keytype false) :
    Standing world world lo hi (.add name written) := by
  have here : world name (name.table.id written) = some record := by
    rw [number, (represents name).id_eq n record has]
    exact has
  exact .steady name written record record other here here fun keytype member =>
    ⟨keys keytype member, keys keytype member⟩

/-- A record that was looked up is updated with its keys, or inserted under the next number. -/
theorem standing_of_lookedUp {name : TableName} (other : name ≠ .globalAssoc) (represents : RepresentsAll db world)
    {keytype : KeyTypeE} {probe record written : name.Record} {found : Bool} {counter id taken : ℕ}
    (looked : LookedUp name.table (world name) keytype probe (found, record))
    (takes : Gives (takeId found (name.table.id record)) counter id taken) (free : found = false → world name id = none)
    (number : name.table.id written = id)
    (keys : ∀ keytype ∈ name.table.secondaryKeys,
      name.table.getKey record keytype false = name.table.getKey written keytype false)
    (above : lo ≤ counter) (upTo : taken ≤ hi) : Standing world world lo hi (.add name written) := by
  obtain ⟨isId, isTaken⟩ := gives_takeId.mp takes
  cases looked with
  | found n record has same =>
    have kept : name.table.id written = name.table.id record := by
      rw [number, isId, if_pos rfl]
    exact standing_of_stored other represents has kept keys
  | absent missing =>
    have isNext : name.table.id written = counter + 1 := number.trans isId
    have next : taken = counter + 1 := isTaken
    have nobody : world name (name.table.id written) = none := by
      rw [number]
      exact free rfl
    exact .new name written (by omega) (by omega) nobody nobody

theorem Opened.standing {now : UInt64} {counter counter' : ℕ} {probe session : ValidationSessionT} {expired : Bool}
    {ops : List TableOp} (represents : RepresentsAll db world)
    (opened : Opened world now counter probe session expired ops counter') (above : lo ≤ counter) (upTo : counter' ≤ hi)
    {op : TableOp} (member : op ∈ ops) : Standing world world lo hi op := by
  cases opened with
  | kept => exact (List.not_mem_nil member).elim
  | reopened n session has same late =>
    rw [List.mem_singleton.mp member]
    refine standing_of_stored (by decide) represents has rfl fun keytype inKeys => ?_
    rw [List.mem_singleton.mp inKeys]
    rfl
  | created absent free =>
    rw [List.mem_singleton.mp member]
    refine .new .validationSession _ ?_ ?_ free free
    · change lo < counter + 1
      omega
    · exact upTo

/-- All that a request read stands as it was read when it has read it. -/
theorem Writes.standing (represents : RepresentsAll db world) {hostname : Bytes} {env : ActionEnv}
    {request : MasterRequest} {ops : List TableOp} (writes : Writes world hostname env lo request ops hi)
    {op : TableOp} (member : op ∈ ops) : Standing world world lo hi op := by
  cases writes with
  | @requestToken data address session expired found opening tokenauth opened id taken populated opens looked
      sends takes free =>
    have grows := opens.grows
    have fresh := takes.grows
    rcases List.mem_append.mp member with inOpening | sending
    · exact opens.standing represents le_rfl (by omega) inOpening
    · simp only [List.mem_cons, List.not_mem_nil, or_false] at sending
      rcases sending with rfl | rfl
      · refine standing_of_lookedUp (by decide) represents looked takes free rfl (fun keytype inKeys => ?_) grows
          (by omega)
        rw [List.mem_singleton.mp inKeys]
        rfl
      · exact .unkeyed _ rfl
  | @submitToken data sid session submitted fresh =>
    rw [List.mem_singleton.mp member]
    refine standing_of_stored (by decide) represents submitted.has rfl fun keytype inKeys => ?_
    rw [List.mem_singleton.mp inKeys]
    rfl
  | @bind3pid data sid session localFound globalFound localassoc globalassoc tokens tosign output localId
      localTaken globalId globalTaken usable localLooked localTakes localFree globalLooked globalTakes globalFree
      stored =>
    have localGrows := localTakes.grows
    have globalGrows := globalTakes.grows
    simp only [List.cons_append, List.nil_append, List.mem_cons, List.mem_append, List.mem_map, List.not_mem_nil,
      or_false] at member
    rcases member with rfl | rfl | ⟨token, inTokens, rfl⟩ | rfl
    · refine standing_of_lookedUp (by decide) represents localLooked localTakes localFree rfl
        (fun keytype inKeys => ?_) le_rfl (by omega)
      rw [List.mem_singleton.mp inKeys]
      rfl
    · obtain ⟨isId, isTaken⟩ := gives_takeId.mp globalTakes
      cases globalLooked with
      | found n globalassoc has same =>
        have number : globalassoc.id = n := (represents .globalAssoc).id_eq n globalassoc has
        have here : world .globalAssoc globalId = some globalassoc := by
          rw [isId, if_pos rfl, number]
          exact has
        exact .published _ globalassoc globalassoc isId.symm here here rfl rfl (.inl rfl)
      | absent none =>
        have isNext : globalId = localTaken + 1 := isId
        have next : globalTaken = localTaken + 1 := isTaken
        refine .new .globalAssoc _ ?_ ?_ (globalFree rfl) (globalFree rfl)
        · change lo < globalId
          omega
        · change globalId ≤ globalTaken + 1
          omega
    · refine standing_of_stored (by decide) represents (stored token inTokens) rfl fun keytype inKeys => ?_
      rcases List.mem_cons.mp inKeys with rfl | inKeys
      · rfl
      · rw [List.mem_singleton.mp inKeys]
        rfl
    · exact .unkeyed _ rfl
  | storeInvite tokenFree keyFree =>
    simp only [List.mem_cons, List.not_mem_nil, or_false] at member
    rcases member with rfl | rfl | rfl
    · refine .new .inviteToken _ ?_ ?_ tokenFree tokenFree
      · exact Nat.lt_succ_self lo
      · change lo + 1 ≤ lo + 3
        omega
    · refine .new .ephemeralPublicKey _ ?_ ?_ keyFree keyFree
      · change lo < lo + 2
        omega
      · change lo + 2 ≤ lo + 3
        omega
    · exact .unkeyed _ rfl
  | pending =>
    obtain ⟨done, _, rfl⟩ := List.mem_map.mp member
    exact .unkeyed _ rfl
  | getAccessKey usable free =>
    rw [List.mem_singleton.mp member]
    exact .new .accessKey _ (Nat.lt_succ_self lo) le_rfl free free
  | setBlobData looked takes free =>
    rw [List.mem_singleton.mp member]
    refine standing_of_lookedUp (by decide) represents looked takes free rfl (fun keytype inKeys => ?_) le_rfl le_rfl
    rw [List.mem_singleton.mp inKeys]
    rfl

/-- Of a table with unique keys, a request writes one record at most. -/
theorem Writes.alone {hostname : Bytes} {env : ActionEnv} {request : MasterRequest} {ops : List TableOp}
    (writes : Writes world hostname env lo request ops hi) :
    ops.Pairwise fun first second => second.name = first.name → second.name.table.uniqueKeys = [] := by
  cases writes with
  | requestToken populated opens =>
    cases opens <;> simp [TableOp.name]
  | bind3pid =>
    refine List.pairwise_append.mpr ⟨List.pairwise_append.mpr ⟨by simp [TableOp.name], ?_, ?_⟩, by simp, ?_⟩
    · exact List.pairwise_map.mpr (List.pairwise_of_forall fun _ _ _ => rfl)
    · simp [TableOp.name]
    · intro first _ last isLast _
      rw [List.mem_singleton.mp isLast]
      rfl
  | storeInvite => simp [TableOp.name]
  | pending => exact List.pairwise_map.mpr (List.pairwise_of_forall fun _ _ _ => rfl)
  | submitToken | getAccessKey | setBlobData => exact List.pairwise_singleton ..

/-- A binding publishes the association that it writes with it. -/
theorem Writes.pairs {hostname : Bytes} {env : ActionEnv} {request : MasterRequest} {ops : List TableOp}
    (writes : Writes world hostname env lo request ops hi) {published : GlobalAssocT}
    (member : TableOp.add .globalAssoc published ∈ ops) :
    ∃ assoc : LocalAssocT, TableOp.add .localAssoc assoc ∈ ops ∧ published.originId = assoc.id ∧
      joinParts [.strn published.medium, .strn published.address] =
        joinParts [.strn assoc.medium, .strn assoc.address] := by
  have onTable := writes.name_mem member
  cases writes with
  | @bind3pid data sid session localFound globalFound localassoc globalassoc tokens tosign output localId
      localTaken globalId globalTaken usable localLooked localTakes localFree globalLooked globalTakes globalFree
      stored =>
    simp only [List.cons_append, List.nil_append, List.mem_cons, List.mem_append, List.mem_map, List.not_mem_nil,
      or_false, reduceCtorEq, false_or, TableOp.add.injEq, and_false, exists_false, heq_eq_eq, true_and,
      false_and] at member
    subst member
    refine ⟨boundLocal env data.subtok.mxid localId localassoc, List.mem_cons_self .., ?_, ?_⟩
    · cases globalLooked with
      | found n globalassoc has same => exact (globalKey_inj.mp same).2
      | absent none => rfl
    · cases localLooked with
      | found n localassoc has same => exact (List.append_cancel_left same).symm
      | absent none => rfl
  | requestToken | submitToken | storeInvite | pending | getAccessKey | setBlobData =>
    simp [MasterRequest.tables, TableOp.name] at onTable

/-- What a request has when it has read. -/
theorem Writes.waits (represents : RepresentsAll db world) {hostname : Bytes} {env : ActionEnv}
    {request : MasterRequest} {ops : List TableOp} (writes : Writes world hostname env lo request ops hi)
    (accepted : ∀ op ∈ ops, op.Accepted world) (separate : ops.Pairwise TableOp.Unaffected) :
    Reading.Waits { before := world, ops := ops, lo := lo, hi := hi } world := by
  refine ⟨fun op member => writes.standing represents member, fun op member => ?_, separate, writes.alone,
    fun published member => writes.pairs member⟩
  cases op with
  | add name record => exact ⟨(accepted _ member).id_ne_zero, (accepted _ member).found⟩
  | del name record =>
    cases writes.standing represents member with
    | unkeyed _ none => exact none

end Reads

end Identt.Hrpc
