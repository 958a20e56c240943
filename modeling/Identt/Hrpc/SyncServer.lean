import Identt.Store.StoreTrans

/-! # Pulling the master's log (`SyncServer`, `HrpcRemoteEndpointService`)

A slave asks for the log behind its own counter and commits what it gets, as long as the identifiers
continue its log. The two loops of `SyncServer` differ in when they end and in what they do when the
master cannot be reached; a round of either is a request, its answer and the commits.
-/

namespace Identt

open Store StoreTrans

namespace Hrpc

/-- The `R_TRANSLOG` endpoint. -/
def transLog (st : SharedTable) (data : TransListT) (now : UInt64) : Except Exn TransListT × SharedTable :=
  -- check if counter is current
  let logc := st.logcounter
  if data.lastid > logc then (.error (.badData "Remote Log Counter ahead"), st)
  else if data.lastid = logc then
    -- set the last slave as this if unset, this slave is in sync
    let st := if st.lastslave = [] then { st with lastslave := data.endpoint } else st
    (.ok { data with ts := now, currid := logc, limit := 0 }, st)
  else (readLog st data now, st)

/-- What a slave sends. -/
def transLogRequest (st : SharedTable) (limit : ℕ) (now : UInt64) : TransListT :=
  { endpoint := st.thisurl, ts := now, lastid := st.logcounter, limit := limit }

/-- One turn of the loop over the received transactions: the node afterwards, and what is left. -/
def syncNext (env : CommitEnv) (st : SharedTable) : List TransactionT → SharedTable × List TransactionT
  | [] => (st, [])
  | transaction :: rest =>
    if transaction.id ≠ st.logcounter + 1 then (st, []) -- out of sync
    else
      match commit env st transaction false with -- commit as slave
      | (.ok (), st) => (st, rest)
      | (.error _, st) => (st, [])

/-- The loop over the received transactions in `SyncFirst`, where nothing catches what `Commit` throws. -/
def commitReceived (env : CommitEnv) (st : SharedTable) : List TransactionT → Except Exn Unit × SharedTable
  | [] => (.ok (), st)
  | transaction :: rest =>
    if transaction.id ≠ st.logcounter + 1 then (.ok (), st) -- out of sync
    else
      match commit env st transaction false with -- commit as slave
      | (.ok (), st) => commitReceived env st rest
      | (.error e, st) => (.error e, st)

/-- What the environment decides in a round of the pull loop. -/
structure RoundEnv where
  sent : UInt64
  answered : UInt64
  commit : CommitEnv

/-- One round of the loop that pulls in `SyncFirst`, with a master that can be reached: whether it was the
last one, and master and slave afterwards. -/
def pullRound (limit : ℕ) (env : RoundEnv) (master slave : SharedTable) :
    Except Exn Bool × SharedTable × SharedTable :=
  match transLog master (transLogRequest slave limit env.sent) env.answered with
  | (.error e, master) => (.error e, master, slave)
  | (.ok data, master) =>
    match commitReceived env.commit slave data.trans with
    | (.error e, slave) => (.error e, master, slave)
    | (.ok (), slave) => (.ok (data.lastid = data.currid), master, slave)

/-- The loop that pulls in `SyncFirst`, if it ends within so many rounds. -/
def pullLoop (limit : ℕ) : ℕ → (ℕ → RoundEnv) → SharedTable → SharedTable →
    Option (Except Exn Unit × SharedTable × SharedTable)
  | 0, _, _, _ => none
  | rounds + 1, env, master, slave =>
    match pullRound limit (env 0) master slave with
    | (.error e, master, slave) => some (.error e, master, slave)
    | (.ok true, master, slave) => some (.ok (), master, slave)
    | (.ok false, master, slave) => pullLoop limit rounds (fun i => env (i + 1)) master slave

/-- Check that the master has the slave's log; `sendToRemote` is `R_READONE`, and gives nothing when the
master cannot be reached. -/
def compareLog (st : SharedTable) (sendToRemote : TransactionT → Option TransactionT) : Except Exn Bool := do
  let oldLogc := st.logcounter
  if oldLogc = 0 then return true -- blank slave
  else
    match sendToRemote { id := oldLogc - 1 } with
    | none => throw (.initial "Cannot reach master for verification")
    | some trans1 =>
      if trans1.notfound then throw (.initial "Master does not have last log, mismatch")
      else
        -- get the same locally
        let trans2 := readOne st { id := oldLogc - 1 }
        if trans2.notfound then throw (.initial "This instance does not have last log, mismatch")
        else return trans1.ts = trans2.ts

end Hrpc

end Identt
