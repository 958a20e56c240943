import Identt.Store.Service

/-! # Handing out outgoing messages (`MailSmsService`)

A sender first acknowledges the messages it has dealt with, which deletes them, and is then given the
next ones. The new ones are read after the deletions were committed.
-/

namespace Identt.Store

open Mail

namespace MailSmsService

/-- Delete done records. -/
def dropDone (payload : List MPayloadT) : TransactionT :=
  payload.foldl (fun transaction done => (parAvionTable.delRecord { id := done.id } transaction).2) {}

/-- Add a record to those handed out. -/
def handOut (mailq : MailQueryT) (record : ParAvionT) : MailQueryT :=
  { mailq with
    lastid := if mailq.lastid < record.id then record.id else mailq.lastid
    payload := mailq.payload ++ [record.payload.getD {}] }

/-- Fetch new records. The next identifier wraps around. -/
def fetchPending (db : DB) (mailq : MailQueryT) : Except Exn MailQueryT :=
  let lastid := if 0 < mailq.lastid then (mailq.lastid + 1) % 2 ^ 64 else 0
  let limit := if 100 < mailq.limit then 100 else mailq.limit
  parAvionTable.scanTable db lastid limit handOut mailq

def pendingAction (_st : SharedTable) (_env : ActionEnv) (mailq : MailQueryT) : ReadM (Prepared MailQueryT) :=
  if mailq.payload = [] then return ⟨none, fun db => fetchPending db mailq⟩
  else return ⟨some (dropDone mailq.payload), fun db => fetchPending db { mailq with payload := [] }⟩

end MailSmsService

end Identt.Store
