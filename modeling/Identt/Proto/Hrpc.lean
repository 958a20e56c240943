import Identt.Proto.Store

/-! # Messages of `Hrpc.proto`

What nodes tell each other about themselves, and the numbers of the commands.
-/

namespace Identt.Hrpc

structure RemoteT where
  address : Bytes := []
  logcounter : ℕ := 0
  updatedAt : UInt64 := 0
deriving DecidableEq, Repr, Inhabited

structure StateT where
  hostname : Bytes := []
  master : Bytes := []
  logcounter : ℕ := 0
  isMaster : Bool := false
  ts : UInt64 := 0
  thisurl : Bytes := []
  remotes : List RemoteT := []
deriving DecidableEq, Repr, Inhabited

/-- The commands that a node takes from any other. -/
inductive RemoteCmdTypeE where
  | rNoAction | rRegister | rReadOne | rTransLog | rSetInfo | rAddHost | rBuffTrans
deriving DecidableEq, Repr, Inhabited

/-- The enumerator's number. -/
def RemoteCmdTypeE.number : RemoteCmdTypeE → ℕ
  | .rNoAction => 0
  | .rRegister => 1
  | .rReadOne => 2
  | .rTransLog => 3
  | .rSetInfo => 4
  | .rAddHost => 5
  | .rBuffTrans => 6

/-- The commands that the master takes from a slave; those that only read are the same on both. -/
inductive MasterCmdTypeE where
  | mNoAction | mRequestToken | mSubmitToken | mGetValidated3pid | mBind3pid | mStoreInvite | mPending
  | mGetAccessKey | mSetBlobData
deriving DecidableEq, Repr, Inhabited

/-- The enumerator's number. -/
def MasterCmdTypeE.number : MasterCmdTypeE → ℕ
  | .mNoAction => 0
  | .mRequestToken => 1
  | .mSubmitToken => 2
  | .mGetValidated3pid => 3
  | .mBind3pid => 4
  | .mStoreInvite => 10
  | .mPending => 11
  | .mGetAccessKey => 12
  | .mSetBlobData => 13

end Identt.Hrpc
