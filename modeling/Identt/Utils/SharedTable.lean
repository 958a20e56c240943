import Identt.Proto.Store

/-! # The state of a node (`SharedTable`)

The objects all services of a process share. The default build keeps data and log in one store; with
`IDENTT_USE_SEPARATE_LOGDB` the log has a store of its own. Everything reads the log through
`logStore` and writes it through `putLog`, so both builds are the same model.
-/

namespace Identt

open Store

structure SharedTable where
  maincounter : ℕ := 0
  logcounter : ℕ := 0
  maindb : DB := .empty
  /-- The separate log store, if the build has one. -/
  logdb : Option DB := none
  isMaster : Bool := false
  lookupUsesLocal : Bool := false
  master : Bytes := []
  thisurl : Bytes := []
  hostname : Bytes := []
  baseurl : Bytes := []
  lastslave : Bytes := []
  /-- Counter and time of the last contact of every other node, in the map's iteration order. -/
  remotes : List (Bytes × ℕ × UInt64) := []
  dbcache : OrderedMap Bytes Value := .empty
  /-- The public key of `ed25519:0` in the keyring. -/
  publicKey : Bytes := []
deriving DecidableEq

namespace SharedTable

/-- What `logdb` points to. -/
def logStore (st : SharedTable) : DB := st.logdb.getD st.maindb

def putLog (st : SharedTable) (key : Bytes) (value : Stored) : SharedTable :=
  match st.logdb with
  | some logdb => { st with logdb := some (logdb.put key value) }
  | none => { st with maindb := st.maindb.put key value }

/-- `maincounter.GetNext()`. -/
def nextId (st : SharedTable) : ℕ × SharedTable :=
  (st.maincounter + 1, { st with maincounter := st.maincounter + 1 })

/-- The identifier that the call after `i` others of `maincounter.GetNext()` hands out. -/
def handedOut (st : SharedTable) : ℕ → ℕ
  | 0 => st.nextId.1
  | i + 1 => st.nextId.2.handedOut i

theorem handedOut_eq (st : SharedTable) (i : ℕ) : st.handedOut i = st.maincounter + 1 + i := by
  induction i generalizing st with
  | zero => rfl
  | succ i ih =>
    rw [handedOut, ih]
    simp only [nextId]
    omega

@[simp] theorem putLog_logcounter (st : SharedTable) (key : Bytes) (value : Stored) :
    (st.putLog key value).logcounter = st.logcounter := by
  unfold putLog
  split <;> rfl

@[simp] theorem putLog_maincounter (st : SharedTable) (key : Bytes) (value : Stored) :
    (st.putLog key value).maincounter = st.maincounter := by
  unfold putLog
  split <;> rfl

@[simp] theorem putLog_isMaster (st : SharedTable) (key : Bytes) (value : Stored) :
    (st.putLog key value).isMaster = st.isMaster := by
  unfold putLog
  split <;> rfl

@[simp] theorem putLog_hostname (st : SharedTable) (key : Bytes) (value : Stored) :
    (st.putLog key value).hostname = st.hostname := by
  unfold putLog
  split <;> rfl

@[simp] theorem putLog_lookupUsesLocal (st : SharedTable) (key : Bytes) (value : Stored) :
    (st.putLog key value).lookupUsesLocal = st.lookupUsesLocal := by
  unfold putLog
  split <;> rfl

@[simp] theorem putLog_dbcache (st : SharedTable) (key : Bytes) (value : Stored) :
    (st.putLog key value).dbcache = st.dbcache := by
  unfold putLog
  split <;> rfl

@[simp] theorem putLog_lastslave (st : SharedTable) (key : Bytes) (value : Stored) :
    (st.putLog key value).lastslave = st.lastslave := by
  unfold putLog
  split <;> rfl

@[simp] theorem putLog_logdb_isSome (st : SharedTable) (key : Bytes) (value : Stored) :
    (st.putLog key value).logdb.isSome = st.logdb.isSome := by
  unfold putLog
  cases st.logdb <;> simp

@[simp] theorem putLog_logStore (st : SharedTable) (key : Bytes) (value : Stored) :
    (st.putLog key value).logStore = st.logStore.put key value := by
  unfold putLog logStore
  cases st.logdb <;> rfl

/-- The data is written by the log only in the default build. -/
theorem get?_putLog_maindb (st : SharedTable) {key key' : Bytes} (value : Stored)
    (other : st.logdb.isSome ∨ key' ≠ key) :
    (st.putLog key value).maindb.get? key' = st.maindb.get? key' := by
  unfold putLog
  split
  · rfl
  · next shared =>
    rw [shared] at other
    exact OrderedMap.get?_put_of_ne _ _ (other.resolve_left (by simp))

end SharedTable

end Identt
