import Identt.Store.StoreLevel

/-! # Committing transactions and reading the log (`StoreTrans`)

A commit takes the next log identifier, writes the transaction to the log and then its items to the
data; nothing is rolled back when a write fails. What the environment decides in a call (the time,
whether each write succeeds, whether the last slave takes the copy it is sent) is a parameter.
-/

namespace Identt

open Store

namespace StoreTrans

structure CommitEnv where
  now : UInt64
  logPut : Bool := true
  dataWrite : Bool := true
  /-- Whether `SendToRemote` of `R_BUFFTRANS` succeeds. The answer is parsed into the transaction, from which the
  cache is filled then; it is taken to be the transaction again, as that is what `R_BUFFTRANS` answers. -/
  buffTrans : Bool := true
deriving DecidableEq, Repr

/-- `logcounter.GetNext()`, which also numbers the transaction. -/
def takeLogId (st : SharedTable) (transaction : TransactionT) : TransactionT × SharedTable :=
  ({ transaction with id := st.logcounter + 1 }, { st with logcounter := st.logcounter + 1 })

def logKey (id : ℕ) : Bytes := encodePrimaryKey .kLogNode id

/-- The call's status, the transaction as it leaves it, and the node afterwards. -/
def commitLog (env : CommitEnv) (st : SharedTable) (transaction : TransactionT) (isMaster : Bool) :
    Bool × TransactionT × SharedTable :=
  if transaction.item = [] then (true, transaction, st)
  else
    -- the logcounter is incremented just before writing
    let (transaction, st) := takeLogId st transaction
    let transaction := if isMaster then { transaction with ts := env.now } else transaction
    let st := if env.logPut then st.putLog (logKey transaction.id) (.log transaction) else st
    (env.logPut, transaction, st)

def commitData (env : CommitEnv) (st : SharedTable) (transaction : TransactionT) : Bool × SharedTable :=
  if transaction.item = [] then (true, st)
  else if env.dataWrite then (true, { st with maindb := applyItems st.maindb transaction.item })
  else (false, st)

/-- Replicate the transaction on the last slave; a slave that does not answer is forgotten. -/
def replicate (env : CommitEnv) (st : SharedTable) (isMaster : Bool) : SharedTable :=
  if isMaster ∧ st.isMaster ∧ st.lastslave ≠ [] ∧ ¬ env.buffTrans then { st with lastslave := [] } else st

/-- Write both transaction and log. -/
def commit (env : CommitEnv) (st : SharedTable) (transaction : TransactionT) (isMaster : Bool) :
    Except Exn Unit × SharedTable :=
  if transaction.item = [] then (.ok (), st)
  else
    let (logged, transaction, st) := commitLog env st transaction isMaster
    if ¬ logged then (.error (.badData "Insert failed for log"), st)
    else
      let (written, st) := commitData env st transaction
      if ¬ written then (.error (.badData "Insert failed for data"), st)
      else
        let st := replicate env st isMaster
        if st.lookupUsesLocal then
          let (status, cache) := StoreCache.addToCache st.dbcache transaction.item
          (status, { st with dbcache := cache })
        else (.ok (), st)

/-- The loop of `ReadLog` over what the iterator has left of the log. -/
def readLogLoop : ℕ → TransListT → List (Bytes × Stored) → ℕ × TransListT
  | counter, tlist, [] => (counter, tlist)
  | counter, tlist, (_, value) :: rest =>
    match TransactionT.parse value with
    | none => readLogLoop counter tlist rest
    | some record =>
      if record.id = tlist.lastid then readLogLoop counter tlist rest -- skips the first
      else if tlist.lastid + 1 ≠ record.id then (counter, tlist) -- out of sequence
      else
        let tlist := { tlist with lastid := record.id, trans := tlist.trans ++ [record] }
        if counter + 1 > tlist.limit then (counter + 1, tlist) -- break on exceed
        else readLogLoop (counter + 1) tlist rest

/-- Read from the log in sequence. -/
def readLog (st : SharedTable) (tlist : TransListT) (now : UInt64) : Except Exn TransListT :=
  let logc := st.logcounter
  if tlist.lastid > logc then .error (.badData "Remote Log Counter ahead")
  else if tlist.lastid = logc then .ok { tlist with ts := now, currid := logc, limit := 0 }
  else
    -- start from lastid and skip first, if zero will hit and skip fence
    let entries := (st.logStore.seek (logKey tlist.lastid)).takeWhile
      fun entry => (encodeKeyType .kLogNode).isPrefixOf entry.1
    let (counter, tlist) := readLogLoop 0 tlist entries
    let tlist := { tlist with currid := logc, ts := now }
    .ok (if counter = 0 then tlist else { tlist with limit := counter - 1 })

/-- Read a single transaction. -/
def readOne (st : SharedTable) (transaction : TransactionT) : TransactionT :=
  match (st.logStore.get? (logKey transaction.id)).bind TransactionT.parse with
  | some record => record
  | none => { transaction with notfound := true }

end StoreTrans

end Identt
