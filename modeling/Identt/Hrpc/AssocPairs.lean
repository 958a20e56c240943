import Identt.Hrpc.Bindings

/-! # Associations come in pairs

A binding is kept twice: in the table of this server's own associations, found by the address, and in
the table that is published, found by this server's name and the number of the first record. The two
are inserted or updated independently, but always meet: whichever way a binding goes, the tables
stay in a one-to-one correspondence.
-/

namespace Identt.Hrpc

open Store Query ReadM ThreePidService

/-- The published association is the one that a server makes of its own association. -/
structure Publishes (hostname : Bytes) (assoc : LocalAssocT) (published : GlobalAssocT) : Prop where
  originServer : published.originServer = hostname
  originId : published.originId = assoc.id
  medium : published.medium = assoc.medium
  address : published.address = assoc.address
  mxid : published.mxid = assoc.mxid
  ts : published.ts = assoc.ts
  notBefore : published.notBefore = assoc.notBefore
  notAfter : published.notAfter = assoc.notAfter

/-- The pairing of the two tables of associations. -/
structure Paired (world : World) (hostname : Bytes) : Prop where
  published : ∀ n assoc, world .localAssoc n = some assoc →
    ∃ m published, world .globalAssoc m = some published ∧ Publishes hostname assoc published
  origin : ∀ m published, world .globalAssoc m = some published →
    ∃ n assoc, world .localAssoc n = some assoc ∧ Publishes hostname assoc published

/-- The key of a published association tells its origin. -/
theorem globalKey_inj {left right : GlobalAssocT} :
    globalAssocTable.getKey left .uGlobalAssocOriginServerOriginId false =
      globalAssocTable.getKey right .uGlobalAssocOriginServerOriginId false ↔
      left.originServer = right.originServer ∧ left.originId = right.originId := by
  constructor
  · intro same
    obtain ⟨server, digits⟩ := eq_of_append_sep (fmtSep_notMem_hex _ _) (fmtSep_notMem_hex _ _)
      (List.append_cancel_left same)
    exact ⟨server, hex_injective _ digits⟩
  · rintro ⟨server, id⟩
    simp only [globalAssocTable, GlobalAssocT.getKey, server, id]

section Bound

variable {world : World} {hostname mxid tosign : Bytes} {env : ActionEnv} {session : ValidationSessionT}
  {localFound globalFound : Bool} {localassoc : LocalAssocT} {globalassoc : GlobalAssocT}
  {counter localId localTaken globalId globalTaken : ℕ}

/-- The two records that a binding writes make a pair. -/
theorem publishes_bound (plainSession : fmtSep ∉ session.medium)
    (plainAssoc : ∀ n assoc, world .localAssoc n = some assoc → fmtSep ∉ assoc.medium)
    (localLooked : LookedUp localAssocTable (world .localAssoc) .uLocalAssocMediumAddress
      { medium := session.medium, address := session.address } (localFound, localassoc))
    (globalLooked : LookedUp globalAssocTable (world .globalAssoc) .uGlobalAssocOriginServerOriginId
      { originId := localId, originServer := hostname } (globalFound, globalassoc)) :
    Publishes hostname (boundLocal env mxid localId localassoc)
      { boundGlobal env session mxid globalId globalassoc with sgAssoc := tosign } := by
  obtain ⟨medium, address⟩ : localassoc.medium = session.medium ∧ localassoc.address = session.address := by
    cases localLooked with
    | found n localassoc has same => exact localKey_inj (plainAssoc n localassoc has) plainSession same
    | absent none => exact ⟨rfl, rfl⟩
  obtain ⟨server, id⟩ : globalassoc.originServer = hostname ∧ globalassoc.originId = localId := by
    cases globalLooked with
    | found n globalassoc has same => exact globalKey_inj.mp same
    | absent none => exact ⟨rfl, rfl⟩
  exact ⟨server, id, medium.symm, address.symm, rfl, rfl, rfl, rfl⟩

/-- A binding goes to both records of an old pair or to neither. -/
theorem bound_meets {db : DB} (represents : RepresentsAll db world)
    (globalLooked : LookedUp globalAssocTable (world .globalAssoc) .uGlobalAssocOriginServerOriginId
      { originId := localId, originServer := hostname } (globalFound, globalassoc))
    (globalTakes : Gives (takeId globalFound globalassoc.id) localTaken globalId globalTaken)
    (globalFree : globalFound = false → world .globalAssoc globalId = none)
    {n m : ℕ} {assoc : LocalAssocT} {published : GlobalAssocT} (has : world .localAssoc n = some assoc)
    (hasPublished : world .globalAssoc m = some published) (publishes : Publishes hostname assoc published) :
    n = localId ↔ m = globalId := by
  have number : assoc.id = n := (represents .localAssoc).id_eq n assoc has
  obtain ⟨rfl, -⟩ := gives_takeId.mp globalTakes
  cases globalLooked with
  | found k globalassoc stored same =>
    obtain ⟨_, id⟩ := globalKey_inj.mp same
    have numberGlobal : globalassoc.id = k := (represents .globalAssoc).id_eq k globalassoc stored
    rw [if_pos rfl, numberGlobal]
    constructor
    · rintro rfl
      have sameKey := (@globalKey_inj published { originId := n, originServer := hostname }).mpr
        ⟨publishes.originServer, publishes.originId.trans number⟩
      exact (represents .globalAssoc).unique (List.mem_cons_self ..) hasPublished stored (sameKey.trans same.symm)
    · rintro rfl
      obtain rfl := Option.some.inj (hasPublished.symm.trans stored)
      exact number.symm.trans (publishes.originId.symm.trans id)
  | absent none =>
    constructor
    · rintro rfl
      exact (none m published hasPublished
        (globalKey_inj.mpr ⟨publishes.originServer, publishes.originId.trans number⟩)).elim
    · rintro rfl
      rw [globalFree rfl] at hasPublished
      contradiction

end Bound

/-- Writing a new pair over an old one, or next to all of them. -/
theorem Paired.update {world world' : World} {hostname : Bytes} (paired : Paired world hostname) {n m : ℕ}
    {assoc : LocalAssocT} {published : GlobalAssocT} (publishes : Publishes hostname assoc published)
    (locals : world' .localAssoc = Function.update (world .localAssoc) n (some assoc))
    (globals : world' .globalAssoc = Function.update (world .globalAssoc) m (some published))
    (meets : ∀ i j old oldPublished, world .localAssoc i = some old → world .globalAssoc j = some oldPublished →
      Publishes hostname old oldPublished → (i = n ↔ j = m)) : Paired world' hostname := by
  constructor
  · intro i old has
    rw [locals, Function.update_apply] at has
    split at has
    · cases has
      exact ⟨m, published, by rw [globals, Function.update_self], publishes⟩
    · next other =>
      obtain ⟨j, oldPublished, hasPublished, oldPair⟩ := paired.published i old has
      have otherGlobal : j ≠ m := fun here => other ((meets i j old oldPublished has hasPublished oldPair).mpr here)
      exact ⟨j, oldPublished, by rw [globals, Function.update_of_ne otherGlobal, hasPublished], oldPair⟩
  · intro j oldPublished hasPublished
    rw [globals, Function.update_apply] at hasPublished
    split at hasPublished
    · cases hasPublished
      exact ⟨n, assoc, by rw [locals, Function.update_self], publishes⟩
    · next other =>
      obtain ⟨i, old, has, oldPair⟩ := paired.origin j oldPublished hasPublished
      have otherLocal : i ≠ n := fun here => other ((meets i j old oldPublished has hasPublished oldPair).mp here)
      exact ⟨i, old, by rw [locals, Function.update_of_ne otherLocal, has], oldPair⟩

/-- A request keeps the pairing. -/
theorem Paired.step {db : DB} {world : World} (represents : RepresentsAll db world) {hostname : Bytes}
    (paired : Paired world hostname)
    (plainSession : ∀ n session, world .validationSession n = some session → fmtSep ∉ session.medium)
    (plainAssoc : ∀ n assoc, world .localAssoc n = some assoc → fmtSep ∉ assoc.medium)
    {env : ActionEnv} {counter counter' : ℕ} {request : MasterRequest} {ops : List TableOp}
    (writes : Writes world hostname env counter request ops counter') :
    Paired (ops.foldl TableOp.apply world) hostname := by
  have localFrame := Writes.frame .localAssoc writes
  have globalFrame := Writes.frame .globalAssoc writes
  cases writes with
  | @bind3pid data sid session localFound globalFound localassoc globalassoc tokens tosign output localId
      localTaken globalId globalTaken usable localLooked localTakes localFree globalLooked globalTakes globalFree
      stored =>
    have publishes : Publishes hostname (boundLocal env data.subtok.mxid localId localassoc)
        { boundGlobal env session data.subtok.mxid globalId globalassoc with sgAssoc := tosign } :=
      publishes_bound (plainSession sid session usable.has) plainAssoc localLooked globalLooked
    obtain ⟨locals, globals⟩ := foldl_bind world (boundLocal env data.subtok.mxid localId localassoc)
      { boundGlobal env session data.subtok.mxid globalId globalassoc with sgAssoc := tosign } tokens env.currtime
      (bindMail (globalTaken + 1) session data.subtok.mxid output)
    exact paired.update publishes locals globals fun i j old oldPublished has hasPublished =>
      bound_meets represents globalLooked globalTakes globalFree has hasPublished
  | requestToken | submitToken | storeInvite | pending | getAccessKey | setBlobData =>
    have locals := localFrame (by simp [MasterRequest.tables])
    have globals := globalFrame (by simp [MasterRequest.tables])
    exact ⟨by rw [locals, globals]; exact paired.published, by rw [locals, globals]; exact paired.origin⟩

@[simp] theorem serve_hostname (st : SharedTable) (request : MasterRequest) (env : ActionEnv) :
    (serve st request env).2.hostname = st.hostname := by
  rw [serve, runAction]
  split
  · rw [finish_snd]
    split
    · rfl
    · exact commit_hostname ..
  · rfl

/-- The pairing holds in every state of a run on an empty store, under the hostname of its start. -/
theorem run_paired {start : SharedTable} (empty : EmptyStore start) (labels : List ServeStep) :
    Consistent (Run.final serveStep start labels) ∧
      Paired (worldOf (Run.final serveStep start labels).maindb) start.hostname := by
  have all : Traced start labels (Run.final serveStep start labels) ∧
      (Run.final serveStep start labels).hostname = start.hostname ∧
      Paired (worldOf (Run.final serveStep start labels).maindb) start.hostname := by
    refine @Run.history _ _ serveStep (fun past st => Traced start past st ∧ st.hostname = start.hostname ∧
      Paired (worldOf st.maindb) start.hostname) start ⟨empty.traced, rfl, ?_⟩ ?_ labels
    · exact ⟨fun n assoc has => (empty.nothing .localAssoc n assoc has).elim,
        fun n assoc has => (empty.nothing .globalAssoc n assoc has).elim⟩
    · rintro past label ⟨traced, hostname, paired⟩
      refine ⟨traced.step rfl label, (serve_hostname ..).trans hostname, ?_⟩
      obtain ⟨_, same | ⟨ops, writes, _, _, represents⟩⟩ := serve_cases traced.consistent.invariant label.1 label.2
      · rw [serveStep, ← same.world_eq]
        exact paired
      · rw [hostname] at writes
        rw [serveStep, ← represents.world_eq]
        exact paired.step traced.consistent.invariant traced.plainSession traced.plainAssoc writes
  exact ⟨all.1.consistent, all.2.2⟩

/-- In every run of requests on an empty store, each association of this server is published exactly once
under this server's name and its own number, with the same content, every published association is that of one
of this server's own, and no two associations of this server are for one address. -/
theorem associations_paired {start : SharedTable} (empty : EmptyStore start) (labels : List ServeStep) :
    let world := worldOf (Run.final serveStep start labels).maindb
    (∀ n assoc, world .localAssoc n = some assoc →
      (∃! m, ∃ published, world .globalAssoc m = some published ∧ published.originServer = start.hostname ∧
        published.originId = assoc.id) ∧
      ∀ m published, world .globalAssoc m = some published → published.originServer = start.hostname →
        published.originId = assoc.id → Publishes start.hostname assoc published) ∧
    (∀ m published, world .globalAssoc m = some published →
      ∃! n, ∃ assoc, world .localAssoc n = some assoc ∧ Publishes start.hostname assoc published) ∧
    ∀ m n left right, world .localAssoc m = some left → world .localAssoc n = some right →
      left.medium = right.medium → left.address = right.address → m = n := by
  intro world
  obtain ⟨consistent, paired⟩ := run_paired empty labels
  have locals : localAssocTable.Represents _ (world .localAssoc) := consistent.invariant .localAssoc
  have globals : globalAssocTable.Represents _ (world .globalAssoc) := consistent.invariant .globalAssoc
  have oneOrigin {m m' : ℕ} {left right : GlobalAssocT} (has : world .globalAssoc m = some left)
      (has' : world .globalAssoc m' = some right) (server : left.originServer = right.originServer)
      (id : left.originId = right.originId) : m = m' :=
    globals.unique (List.mem_cons_self ..) has has' (globalKey_inj.mpr ⟨server, id⟩)
  refine ⟨fun n assoc has => ?_, fun m published has => ?_, fun m n left right hasLeft hasRight medium address => ?_⟩
  · obtain ⟨m, published, hasPublished, publishes⟩ := paired.published n assoc has
    have only (m' : ℕ) (other : GlobalAssocT) (hasOther : world .globalAssoc m' = some other)
        (server : other.originServer = start.hostname) (id : other.originId = assoc.id) : m' = m :=
      oneOrigin hasOther hasPublished (server.trans publishes.originServer.symm) (id.trans publishes.originId.symm)
    refine ⟨⟨m, ⟨published, hasPublished, publishes.originServer, publishes.originId⟩, ?_⟩, ?_⟩
    · rintro m' ⟨other, hasOther, server, id⟩
      exact only m' other hasOther server id
    · intro m' other hasOther server id
      obtain rfl := only m' other hasOther server id
      obtain rfl := Option.some.inj (hasOther.symm.trans hasPublished)
      exact publishes
  · obtain ⟨n, assoc, hasAssoc, publishes⟩ := paired.origin m published has
    refine ⟨n, ⟨assoc, hasAssoc, publishes⟩, ?_⟩
    rintro n' ⟨other, hasOther, publishesOther⟩
    rw [← locals.id_eq n assoc hasAssoc, ← locals.id_eq n' other hasOther]
    exact publishesOther.originId.symm.trans publishes.originId
  · refine locals.unique (List.mem_singleton_self _) hasLeft hasRight ?_
    simp only [localAssocTable, LocalAssocT.getKey, medium, address]

/-- The user of the first binding is replaced by another one. -/
def validateAndRebind : List ServeStep :=
  validateAndBind ++
    [(.bind3pid { subtok := { sid := ascii "2", clientSecret := ascii "q", mxid := ascii "@b:x" } },
      { currtime := 1000003, commit := { now := 1000003 } })]

theorem associations_paired_validateAndRebind :
    ∃! m, ∃ published, worldOf (Run.final serveStep emptyMaster validateAndRebind).maindb .globalAssoc m =
      some published ∧ published.originServer = ascii "x" ∧ published.originId = 5 := by
  have stored : (worldOf (Run.final serveStep emptyMaster validateAndRebind).maindb .localAssoc 5).map
      (fun assoc => (assoc.id, assoc.mxid)) = some (5, ascii "@b:x") := by decide +kernel
  obtain ⟨assoc, has, fields⟩ := Option.map_eq_some_iff.mp stored
  have number : assoc.id = 5 := congrArg Prod.fst fields
  have once := ((associations_paired emptyStore_emptyMaster validateAndRebind).1 5 assoc has).1
  rwa [number] at once

end Identt.Hrpc
