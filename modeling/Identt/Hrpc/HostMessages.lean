import Identt.Hrpc.RemoteKeeper

/-! # What a node hears of others

Nodes hear of each other through `R_SETINFO`, `R_REGISTER` and `R_ADDHOST`, directly and from the list
that a master relays. Each report replaces what was known of its address. The time that it carries is
stored and not compared, so the map holds the report that came last.
-/

namespace Identt.Hrpc

open SharedMap

/-- A log counter and the time at which it was read. -/
abbrev Report := ℕ × UInt64

/-- The messages with which nodes report log counters. -/
inductive HostMessage where
  | setInfo (data : StateT)
  | register (data : StateT)
  | addHost (data : RemoteT)
deriving DecidableEq, Repr, Inhabited

/-- What the remote endpoint does to the node's table. -/
def HostMessage.deliver (st : SharedTable) : HostMessage → SharedTable
  | .setInfo data => setHosts st data
  -- update remote in list
  | .register data => if st.isMaster then Hrpc.addHost st data.thisurl data.logcounter data.ts else st
  -- host addition is slave only
  | .addHost data => if st.isMaster then st else Hrpc.addHost st data.address data.logcounter data.updatedAt

/-- The reports in a message, as far as a node with this role takes them. -/
def HostMessage.reports (isMaster : Bool) : HostMessage → List (Bytes × Report)
  | .setInfo data =>
    if data.isMaster then data.remotes.map fun rms => (rms.address, rms.logcounter, rms.updatedAt)
    else [(data.thisurl, data.logcounter, data.ts)]
  | .register data => if isMaster then [(data.thisurl, data.logcounter, data.ts)] else []
  | .addHost data => if isMaster then [] else [(data.address, data.logcounter, data.updatedAt)]

/-- The node after all messages, in the order in which they are delivered. -/
def deliverAll (st : SharedTable) (messages : List HostMessage) : SharedTable :=
  messages.foldl HostMessage.deliver st

/-- The reports that a node gets, in the order in which it gets them. -/
def received (isMaster : Bool) (messages : List HostMessage) : List (Bytes × Report) :=
  messages.flatMap (HostMessage.reports isMaster)

/-- The report of an address that came last. -/
def lastReport (isMaster : Bool) (messages : List HostMessage) (address : Bytes) : Option Report :=
  (received isMaster messages).reverse.lookup address

theorem deliver_isMaster (st : SharedTable) (message : HostMessage) :
    (message.deliver st).isMaster = st.isMaster := by
  cases message with
  | setInfo data =>
    rw [HostMessage.deliver, setHosts]
    split <;> rfl
  | register data | addHost data =>
    rw [HostMessage.deliver]
    split <;> rfl

theorem lookup_deliver (st : SharedTable) (message : HostMessage) (address : Bytes) :
    (message.deliver st).remotes.lookup address =
      ((message.reports st.isMaster).reverse.lookup address).or (st.remotes.lookup address) := by
  have one (name : Bytes) (report : Report) : (addOne st.remotes name report).lookup address =
      ([(name, report)].reverse.lookup address).or (st.remotes.lookup address) :=
    lookup_addMany st.remotes [(name, report)] address
  cases message with
  | setInfo data =>
    rw [HostMessage.deliver, HostMessage.reports, setHosts]
    split
    · have empty : (([] : MapT Bytes Report).map Prod.fst).Nodup := List.nodup_nil
      change (addMany st.remotes (addMany [] _)).lookup address = _
      rw [lookup_addMany, lookup_reverse (addMany_nodup empty _), lookup_addMany, List.lookup_nil, Option.or_none]
    · exact one data.thisurl _
  | register data =>
    rw [HostMessage.deliver, HostMessage.reports]
    split
    · exact one data.thisurl _
    · rfl
  | addHost data =>
    rw [HostMessage.deliver, HostMessage.reports]
    split
    · rfl
    · exact one data.address _

theorem deliverAll_isMaster (st : SharedTable) (messages : List HostMessage) :
    (deliverAll st messages).isMaster = st.isMaster := by
  induction messages generalizing st with
  | nil => rfl
  | cons message rest ih => exact (ih (message.deliver st)).trans (deliver_isMaster st message)

/-- The map holds the report that came last. -/
theorem lookup_deliverAll (st : SharedTable) (messages : List HostMessage) (address : Bytes) :
    (deliverAll st messages).remotes.lookup address =
      (lastReport st.isMaster messages address).or (st.remotes.lookup address) := by
  induction messages using List.reverseRecOn with
  | nil => rfl
  | append_singleton messages message ih =>
    rw [deliverAll, List.foldl_append, List.foldl_cons, List.foldl_nil]
    change (message.deliver (deliverAll st messages)).remotes.lookup address = _
    rw [lookup_deliver, ih, deliverAll_isMaster, lastReport, lastReport, received, received, List.flatMap_append,
      List.reverse_append, List.flatMap_singleton, List.lookup_append, Option.or_assoc]

theorem mem_received_of_lastReport {isMaster : Bool} {messages : List HostMessage} {address : Bytes}
    {report : Report} (last : lastReport isMaster messages address = some report) :
    (address, report) ∈ received isMaster messages := List.mem_reverse.mp (mem_of_lookup last)

theorem lastReport_isSome {isMaster : Bool} {messages : List HostMessage} {address : Bytes} {report : Report}
    (heard : (address, report) ∈ received isMaster messages) :
    ∃ last, lastReport isMaster messages address = some last := by
  cases last : lastReport isMaster messages address with
  | some latest => exact ⟨latest, rfl⟩
  | none =>
    have other := List.lookup_eq_none_iff.mp last (address, report) (List.mem_reverse.mpr heard)
    simp at other

/-- The maps of two nodes hold the same. -/
def SameRemotes (st st' : SharedTable) : Prop := ∀ address, st.remotes.lookup address = st'.remotes.lookup address

/-- The map holds, for each address that was reported, a report that is the newest of the address. -/
def HoldsNewest (st : SharedTable) (reports : List (Bytes × Report)) : Prop :=
  ∀ address report, (address, report) ∈ reports →
    ∃ held, st.remotes.lookup address = some held ∧ (address, held) ∈ reports ∧ report.2 ≤ held.2

/-- The map holds what was reported last of each address. So two orders of the same messages give the same
map exactly if the last reports are the same, and the map holds the newest reports exactly if no older one
came last. -/
theorem remotes_hold_last (st : SharedTable) (messages : List HostMessage) :
    (∀ address, (deliverAll st messages).remotes.lookup address =
      (lastReport st.isMaster messages address).or (st.remotes.lookup address)) ∧
    (∀ messages', messages.Perm messages' → (SameRemotes (deliverAll st messages) (deliverAll st messages') ↔
      ∀ address, lastReport st.isMaster messages address = lastReport st.isMaster messages' address)) ∧
    (HoldsNewest (deliverAll st messages) (received st.isMaster messages) ↔
      ∀ address last, lastReport st.isMaster messages address = some last →
        ∀ report, (address, report) ∈ received st.isMaster messages → report.2 ≤ last.2) := by
  refine ⟨lookup_deliverAll st messages, fun messages' perm => ?_, ?_⟩
  · have permReceived : (received st.isMaster messages).Perm (received st.isMaster messages') := perm.flatMap_right _
    constructor
    · intro same address
      have atAddress := same address
      rw [lookup_deliverAll, lookup_deliverAll] at atAddress
      cases last : lastReport st.isMaster messages address with
      | some latest =>
        obtain ⟨latest', last'⟩ := lastReport_isSome (permReceived.mem_iff.mp (mem_received_of_lastReport last))
        rw [last, last', Option.some_or, Option.some_or] at atAddress
        rw [last', atAddress]
      | none =>
        cases last' : lastReport st.isMaster messages' address with
        | none => rfl
        | some latest' =>
          obtain ⟨latest, heard⟩ := lastReport_isSome (permReceived.mem_iff.mpr (mem_received_of_lastReport last'))
          rw [last] at heard
          contradiction
    · intro same address
      rw [lookup_deliverAll, lookup_deliverAll, same address]
  · constructor
    · intro newest address last isLast report heard
      obtain ⟨held, holds, _, notOlder⟩ := newest address report heard
      rw [lookup_deliverAll, isLast, Option.some_or] at holds
      rwa [Option.some.inj holds]
    · intro inOrder address report heard
      obtain ⟨last, isLast⟩ := lastReport_isSome heard
      refine ⟨last, ?_, mem_received_of_lastReport isLast, inOrder address last isLast report heard⟩
      rw [lookup_deliverAll, isLast, Option.some_or]

/-- A slave's report of itself, and an older one of the same slave. -/
def freshReport : HostMessage := .setInfo { thisurl := ascii "a", logcounter := 5, ts := 10 }

def staleReport : HostMessage := .addHost { address := ascii "a", logcounter := 3, updatedAt := 4 }

/-- When the older report arrives last, it stays. -/
theorem staleReport_stays : [freshReport, staleReport].Perm [staleReport, freshReport] ∧
    ¬ SameRemotes (deliverAll {} [freshReport, staleReport]) (deliverAll {} [staleReport, freshReport]) ∧
    ¬ HoldsNewest (deliverAll {} [freshReport, staleReport]) (received false [freshReport, staleReport]) := by
  refine ⟨List.Perm.swap _ _ _, fun same => ?_, fun newest => ?_⟩
  · have atAddress := same (ascii "a")
    revert atAddress
    decide
  · obtain ⟨held, holds, _, notOlder⟩ := newest (ascii "a") (5, 10) (by decide)
    have stale : (deliverAll {} [freshReport, staleReport]).remotes.lookup (ascii "a") = some (3, 4) := by decide
    obtain rfl := Option.some.inj (holds.symm.trans stale)
    revert notOlder
    decide

end Identt.Hrpc
