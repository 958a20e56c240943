import Identt.Proto.Hrpc
import Identt.Utils.SharedMap
import Identt.Utils.SharedTable

/-! # The other nodes (`RemoteKeeper`)

Nodes tell each other their log counters, and the master relays its list. A slave that lost its master
compares what it knows of the other nodes with its own log counter and either becomes the master or
registers with the node that is ahead.
-/

namespace Identt.Hrpc

open Store

/-- `SetHosts`: the master's list, or what any other node says of itself. -/
def setHosts (st : SharedTable) (state : StateT) : SharedTable :=
  if state.isMaster then
    let rmap := SharedMap.addMany [] (state.remotes.map fun rms => (rms.address, rms.logcounter, rms.updatedAt))
    { st with remotes := SharedMap.addMany st.remotes rmap }
  else { st with remotes := SharedMap.addOne st.remotes state.thisurl (state.logcounter, state.ts) }

/-- `AddHost`. -/
def addHost (st : SharedTable) (name : Bytes) (logcounter : ℕ) (updatedAt : UInt64) : SharedTable :=
  { st with remotes := SharedMap.addOne st.remotes name (logcounter, updatedAt) }

/-- `GetHosts`, into a message that was just made or cleared. -/
def getHosts (st : SharedTable) (now : UInt64) : StateT where
  hostname := st.hostname
  master := st.master
  logcounter := st.logcounter
  isMaster := st.isMaster
  ts := now
  thisurl := st.thisurl
  remotes := if st.isMaster then
      st.remotes.map fun p => { address := p.1, logcounter := p.2.1, updatedAt := p.2.2 }
    else []

/-- One round of the loop of `MasterUpdate`: the candidate with the largest log counter, and of those
with the largest name, among the remotes heard of since the cutoff. -/
def candidate (cutoff : UInt64) (best : Bytes × ℕ) (remote : Bytes × ℕ × UInt64) : Bytes × ℕ :=
  let (newmaster, maxLogcounter) := best
  let (name, logcounter, updatedAt) := remote
  -- eliminate too low, lower counter, me
  if updatedAt < cutoff ∨ logcounter < maxLogcounter ∨ name = newmaster then best
  else if logcounter > maxLogcounter ∨ (logcounter = maxLogcounter ∧ name > newmaster) then (name, logcounter)
  else best

/-- Elect the master based on info received after cutoff; `tries` are the outcomes of the attempts to
register with another node, of which at most ten are made. -/
def masterUpdate (cutoff : UInt64) (tries : List Bool) (st : SharedTable) : SharedTable :=
  let (newmaster, _) := st.remotes.foldl (candidate cutoff) (st.thisurl, st.logcounter)
  if newmaster = st.thisurl then { st with lastslave := [], isMaster := true }
  else if (tries.take 10).any id then { st with master := newmaster }
  else st

@[simp] theorem masterUpdate_maincounter (cutoff : UInt64) (tries : List Bool) (st : SharedTable) :
    (masterUpdate cutoff tries st).maincounter = st.maincounter := by
  simp only [masterUpdate]
  split_ifs <;> rfl

@[simp] theorem masterUpdate_maindb (cutoff : UInt64) (tries : List Bool) (st : SharedTable) :
    (masterUpdate cutoff tries st).maindb = st.maindb := by
  simp only [masterUpdate]
  split_ifs <;> rfl

end Identt.Hrpc
