import Identt.Hrpc.Election
import Identt.Hrpc.HostUpdate
import Identt.Lib.Run

/-! # Slaves that lost their master

Each slave tells the others its state and later elects a master from what it heard. Calls are posts and
answers in flight, which can be lost or come late. Nothing is agreed on: a slave becomes the master as
soon as it has not heard of one that is ahead.
-/

namespace Identt.Hrpc

open SharedMap

/-- A running `HostUpdate`, or the attempts to register with a new master: the remotes still to be called,
and the message that is sent and takes the answers. -/
structure Call (ι : Type) where
  owner : ι
  cmd : RemoteCmdTypeE
  rest : List Bytes
  state : StateT
  /-- The number of the post that waits for an answer. -/
  waits : Option ℕ := none
  posts : ℕ := 0

/-- A message in flight, with the call and the number of the post that it belongs to. -/
structure InFlight where
  call : ℕ
  post : ℕ
  address : Bytes
  cmd : RemoteCmdTypeE
  state : StateT

structure Slaves (ι : Type) where
  nodes : ι → SharedTable
  calls : List (Call ι) := []
  requests : List InFlight := []
  answers : List InFlight := []

inductive SlavesStep (ι : Type) where
  /-- A slave begins to tell all others its state. -/
  | hostUpdate (i : ι) (now : UInt64)
  /-- A slave elects a master, itself or one that it begins to register with. -/
  | masterUpdate (i : ι) (cutoff now : UInt64)
  /-- A call posts to the next address. -/
  | post (call : ℕ)
  /-- A node handles a request that is addressed to it. -/
  | handle (request : ℕ) (i : ι) (now : UInt64)
  | loseRequest (request : ℕ)
  /-- An answer reaches the call that it is for. -/
  | answer (answer : ℕ)
  | loseAnswer (answer : ℕ)
  /-- A post fails for its call; the request may still arrive. -/
  | giveUp (call : ℕ)

section Step

variable {ι : Type} [DecidableEq ι]

namespace Slaves

def begin (s : Slaves ι) (call : Call ι) : Slaves ι := { s with calls := s.calls ++ [call] }

def setNode (s : Slaves ι) (i : ι) (st : SharedTable) : Slaves ι := { s with nodes := Function.update s.nodes i st }

/-- The call of `HostUpdate` on a node. -/
def telling (s : Slaves ι) (i : ι) (now : UInt64) : Call ι where
  owner := i
  cmd := .rSetInfo
  rest := (s.nodes i).remotes.map Prod.fst
  state := getHosts (s.nodes i) now

/-- The attempts of a node to register with the new master, of which there are ten. -/
def registering (s : Slaves ι) (i : ι) (newmaster : Bytes) (now : UInt64) : Call ι where
  owner := i
  cmd := .rRegister
  rest := List.replicate 10 newmaster
  state := getHosts (s.nodes i) now

/-- What the endpoint of a node does with a request. The answer to a registration does not wait for the
`HostUpdate` that it sets off. -/
def handled (s : Slaves ι) (request : InFlight) (i : ι) (now : UInt64) : Slaves ι :=
  let st := s.nodes i
  let s := match request.cmd with
    | .rSetInfo => s.setNode i (setHosts st request.state)
    | .rRegister =>
      if st.isMaster then
        let s := s.setNode i (addHost st request.state.thisurl request.state.logcounter request.state.ts)
        s.begin (s.telling i now)
      else s
    | _ => s
  { s with answers := s.answers ++ [{ request with state := getHosts (s.nodes i) now }] }

/-- A call after an answer: it is over if it was a registration, which then sets the master. -/
def answered (s : Slaves ι) (n : ℕ) (call : Call ι) (answer : InFlight) : Slaves ι :=
  if call.cmd = .rRegister then
    let s := s.setNode call.owner { s.nodes call.owner with master := answer.address }
    { s with calls := s.calls.set n { call with rest := [], state := answer.state, waits := none } }
  else { s with calls := s.calls.set n { call with rest := call.rest.tail, state := answer.state, waits := none } }

def step (s : Slaves ι) : SlavesStep ι → Slaves ι
  | .hostUpdate i now => s.begin (s.telling i now)
  | .masterUpdate i cutoff now =>
    let st := s.nodes i
    if st.isMaster then s
    else
      -- no attempt to register is made yet
      let s := s.setNode i (masterUpdate cutoff [] st)
      if elect cutoff st = st.thisurl then s else s.begin (s.registering i (elect cutoff st) now)
  | .post n =>
    match s.calls[n]? with
    | none => s
    | some call =>
      match call.waits, call.rest with
      | none, address :: _ =>
        { s with
          calls := s.calls.set n { call with waits := some call.posts, posts := call.posts + 1 }
          requests := s.requests ++ [⟨n, call.posts, address, call.cmd, call.state⟩] }
      | _, _ => s
  | .handle n i now =>
    match s.requests[n]? with
    | none => s
    | some request =>
      if (s.nodes i).thisurl = request.address then
        handled { s with requests := s.requests.eraseIdx n } request i now
      else s
  | .loseRequest n => { s with requests := s.requests.eraseIdx n }
  | .answer n =>
    match s.answers[n]? with
    | none => s
    | some answer =>
      let s := { s with answers := s.answers.eraseIdx n }
      match s.calls[answer.call]? with
      | none => s
      | some call => if call.waits = some answer.post then s.answered answer.call call answer else s
  | .loseAnswer n => { s with answers := s.answers.eraseIdx n }
  | .giveUp n =>
    match s.calls[n]? with
    | none => s
    | some call =>
      if call.waits.isSome then
        { s with calls := s.calls.set n { call with rest := call.rest.tail, waits := none } }
      else s

end Slaves

end Step

/-- At most one node is the master. -/
def OneMaster {ι : Type} (s : Slaves ι) : Prop :=
  ∀ i j, (s.nodes i).isMaster = true → (s.nodes j).isMaster = true → i = j

/-- A slave elects a master while another one already is the master, and has not heard, since its cutoff, of
a node that is ahead of itself. -/
def ElectsSecond {ι : Type} (s : Slaves ι) (label : SlavesStep ι) : Prop :=
  ∃ i cutoff now, label = .masterUpdate i cutoff now ∧ (s.nodes i).isMaster = false ∧
    (∃ j, j ≠ i ∧ (s.nodes j).isMaster = true) ∧ ¬ Outranked cutoff (s.nodes i)

section Reports

variable {ι : Type} (url : ι → Bytes) (counter : ι → ℕ)

/-- A report of a log counter is not ahead of the slave that it is about. -/
def Fits (report : Bytes × ℕ) : Prop := ∀ i, url i = report.1 → report.2 ≤ counter i

structure FitsState (state : StateT) : Prop where
  self : Fits url counter (state.thisurl, state.logcounter)
  remotes : ∀ rms ∈ state.remotes, Fits url counter (rms.address, rms.logcounter)

/-- A node under its address, with its log counter, that has at most one report of each other. -/
structure SaneNode (i : ι) (st : SharedTable) : Prop where
  thisurl : st.thisurl = url i
  logcounter : st.logcounter = counter i
  nodup : (st.remotes.map Prod.fst).Nodup
  fits : ∀ remote ∈ st.remotes, Fits url counter (remote.1, remote.2.1)

/-- Nodes, calls and messages that only hold reports which fit. -/
structure Sane (s : Slaves ι) : Prop where
  nodes : ∀ i, SaneNode url counter i (s.nodes i)
  calls : ∀ call ∈ s.calls, FitsState url counter call.state
  requests : ∀ request ∈ s.requests, FitsState url counter request.state
  answers : ∀ answer ∈ s.answers, FitsState url counter answer.state

variable {url counter}

theorem SaneNode.getHosts {i : ι} {st : SharedTable} (sane : SaneNode url counter i st)
    (distinct : Function.Injective url) (now : UInt64) : FitsState url counter (getHosts st now) := by
  refine ⟨fun j same => ?_, fun rms member => ?_⟩
  · obtain rfl : j = i := distinct (same.trans sane.thisurl)
    exact sane.logcounter.le
  · rw [Hrpc.getHosts] at member
    split at member
    · obtain ⟨remote, inRemotes, rfl⟩ := List.mem_map.mp member
      exact sane.fits remote inRemotes
    · contradiction

theorem SaneNode.addHost {i : ι} {st : SharedTable} (sane : SaneNode url counter i st) {name : Bytes}
    {logcounter : ℕ} (fits : Fits url counter (name, logcounter)) (updatedAt : UInt64) :
    SaneNode url counter i (addHost st name logcounter updatedAt) := by
  refine ⟨sane.thisurl, sane.logcounter, addOne_nodup sane.nodup _ _, fun remote member => ?_⟩
  rcases mem_addOne member with old | rfl
  · exact sane.fits remote old
  · exact fits

theorem SaneNode.setHosts {i : ι} {st : SharedTable} (sane : SaneNode url counter i st) {state : StateT}
    (fits : FitsState url counter state) : SaneNode url counter i (setHosts st state) := by
  rw [Hrpc.setHosts]
  split
  · refine ⟨sane.thisurl, sane.logcounter, addMany_nodup sane.nodup _, fun remote member => ?_⟩
    rcases mem_addMany member with old | relayed
    · exact sane.fits remote old
    · rcases mem_addMany relayed with none | listed
      · exact (List.not_mem_nil none).elim
      · obtain ⟨rms, inState, rfl⟩ := List.mem_map.mp listed
        exact fits.remotes rms inState
  · exact sane.addHost fits.self state.ts

theorem SaneNode.masterUpdate {i : ι} {st : SharedTable} (sane : SaneNode url counter i st) (cutoff : UInt64) :
    SaneNode url counter i (masterUpdate cutoff [] st) := by
  simp only [Hrpc.masterUpdate]
  split
  · exact ⟨sane.thisurl, sane.logcounter, sane.nodup, sane.fits⟩
  · exact sane

theorem SaneNode.elect_self_iff {i : ι} {st : SharedTable} (sane : SaneNode url counter i st) (cutoff : UInt64) :
    elect cutoff st = st.thisurl ↔ ¬ Outranked cutoff st := by
  refine Hrpc.elect_self_iff sane.nodup fun remote inRemotes mine => ?_
  rw [sane.logcounter]
  exact sane.fits remote inRemotes i (sane.thisurl.symm.trans mine.symm)

variable [DecidableEq ι] {s : Slaves ι}

theorem Sane.setNode (sane : Sane url counter s) {i : ι} {st : SharedTable} (node : SaneNode url counter i st) :
    Sane url counter (s.setNode i st) := by
  refine { sane with nodes := fun j => ?_ }
  change SaneNode url counter j (Function.update s.nodes i st j)
  rw [Function.update_apply]
  split
  · next same => exact same ▸ node
  · exact sane.nodes j

omit [DecidableEq ι] in
theorem Sane.begin (sane : Sane url counter s) {call : Call ι} (fits : FitsState url counter call.state) :
    Sane url counter (s.begin call) := by
  refine { sane with calls := fun other member => ?_ }
  rcases List.mem_append.mp member with old | new
  · exact sane.calls other old
  · rwa [List.mem_singleton.mp new]

omit [DecidableEq ι] in
theorem Sane.setCall (sane : Sane url counter s) (n : ℕ) {call : Call ι} (fits : FitsState url counter call.state) :
    Sane url counter { s with calls := s.calls.set n call } := by
  refine { sane with calls := fun other member => ?_ }
  rcases List.mem_or_eq_of_mem_set member with old | rfl
  · exact sane.calls other old
  · exact fits

theorem Sane.handled (sane : Sane url counter s) (distinct : Function.Injective url) {request : InFlight}
    (fits : FitsState url counter request.state) (i : ι) (now : UInt64) :
    Sane url counter (s.handled request i now) := by
  have answer {s : Slaves ι} (sane : Sane url counter s) : Sane url counter
      { s with answers := s.answers ++ [{ request with state := getHosts (s.nodes i) now }] } := by
    refine { sane with answers := fun other member => ?_ }
    rcases List.mem_append.mp member with old | new
    · exact sane.answers other old
    · rw [List.mem_singleton.mp new]
      exact (sane.nodes i).getHosts distinct now
  have node := sane.nodes i
  rw [Slaves.handled]
  apply answer
  split
  · exact sane.setNode (node.setHosts fits)
  · split
    · have told := sane.setNode (node.addHost fits.self request.state.ts)
      exact told.begin ((told.nodes i).getHosts distinct now)
    · exact sane
  · exact sane

theorem Sane.answered (sane : Sane url counter s) (n : ℕ) (call : Call ι) {answer : InFlight}
    (fits : FitsState url counter answer.state) : Sane url counter (s.answered n call answer) := by
  rw [Slaves.answered]
  split
  · have node := sane.nodes call.owner
    have registered : SaneNode url counter call.owner { s.nodes call.owner with master := answer.address } :=
      ⟨node.thisurl, node.logcounter, node.nodup, node.fits⟩
    exact (sane.setNode registered).setCall n fits
  · exact sane.setCall n fits

omit [DecidableEq ι] in
theorem Sane.eraseRequest (sane : Sane url counter s) (n : ℕ) :
    Sane url counter { s with requests := s.requests.eraseIdx n } :=
  { sane with requests := fun other member => sane.requests other (List.mem_of_mem_eraseIdx member) }

omit [DecidableEq ι] in
theorem Sane.eraseAnswer (sane : Sane url counter s) (n : ℕ) :
    Sane url counter { s with answers := s.answers.eraseIdx n } :=
  { sane with answers := fun other member => sane.answers other (List.mem_of_mem_eraseIdx member) }

/-- Every step keeps all reports behind the slaves that they are about. -/
theorem Sane.step (sane : Sane url counter s) (distinct : Function.Injective url) (label : SlavesStep ι) :
    Sane url counter (s.step label) := by
  cases label with
  | hostUpdate i now => exact sane.begin ((sane.nodes i).getHosts distinct now)
  | masterUpdate i cutoff now =>
    rw [Slaves.step]
    split
    · exact sane
    · have elected := sane.setNode ((sane.nodes i).masterUpdate cutoff)
      split
      · exact elected
      · exact elected.begin ((elected.nodes i).getHosts distinct now)
  | post n =>
    rw [Slaves.step]
    split
    · exact sane
    · next call found =>
      have fits := sane.calls call (List.mem_of_getElem? found)
      split
      · have posted : FitsState url counter { call with waits := some call.posts, posts := call.posts + 1 }.state := fits
        refine { sane.setCall n posted with requests := fun other member => ?_ }
        rcases List.mem_append.mp member with old | new
        · exact sane.requests other old
        · rw [List.mem_singleton.mp new]
          exact fits
      · exact sane
  | handle n i now =>
    rw [Slaves.step]
    split
    · exact sane
    · next request found =>
      split
      · exact (sane.eraseRequest n).handled distinct (sane.requests request (List.mem_of_getElem? found)) i now
      · exact sane
  | loseRequest n => exact sane.eraseRequest n
  | answer n =>
    rw [Slaves.step]
    split
    · exact sane
    · next answer found =>
      have fits := sane.answers answer (List.mem_of_getElem? found)
      have taken := sane.eraseAnswer n
      simp only
      split
      · exact taken
      · next call _ =>
        split
        · exact taken.answered _ call fits
        · exact taken
  | loseAnswer n => exact sane.eraseAnswer n
  | giveUp n =>
    rw [Slaves.step]
    split
    · exact sane
    · next call found =>
      split
      · exact sane.setCall n (sane.calls call (List.mem_of_getElem? found))
      · exact sane

end Reports

section Election

variable {ι : Type} [DecidableEq ι]

theorem setNode_isMaster (s : Slaves ι) (i : ι) (st : SharedTable) (same : st.isMaster = (s.nodes i).isMaster) (j : ι) :
    ((s.setNode i st).nodes j).isMaster = (s.nodes j).isMaster := by
  change (Function.update s.nodes i st j).isMaster = _
  rw [Function.update_apply]
  split
  · next here => rw [here, same]
  · rfl

theorem handled_isMaster (s : Slaves ι) (request : InFlight) (i : ι) (now : UInt64) (j : ι) :
    ((s.handled request i now).nodes j).isMaster = (s.nodes j).isMaster := by
  rw [Slaves.handled]
  split
  · exact setNode_isMaster s i _ (deliver_isMaster (s.nodes i) (.setInfo request.state)) j
  · split
    · exact setNode_isMaster s i
        (addHost (s.nodes i) request.state.thisurl request.state.logcounter request.state.ts) rfl j
    · rfl
  · rfl

theorem answered_isMaster (s : Slaves ι) (n : ℕ) (call : Call ι) (answer : InFlight) (j : ι) :
    ((s.answered n call answer).nodes j).isMaster = (s.nodes j).isMaster := by
  rw [Slaves.answered]
  split
  · exact setNode_isMaster s call.owner { s.nodes call.owner with master := answer.address } rfl j
  · rfl

/-- The update makes a slave the master exactly if it elects itself. -/
theorem setNode_masterUpdate_isMaster (s : Slaves ι) (cutoff : UInt64) {i : ι} (slave : (s.nodes i).isMaster = false)
    (j : ι) : ((s.setNode i (masterUpdate cutoff [] (s.nodes i))).nodes j).isMaster = true ↔
      (s.nodes j).isMaster = true ∨ (i = j ∧ elect cutoff (s.nodes j) = (s.nodes j).thisurl) := by
  by_cases here : j = i
  · subst here
    change (Function.update s.nodes j _ j).isMaster = true ↔ _
    rw [Function.update_self, masterUpdate_isMaster cutoff [] slave]
    simp [slave]
  · change (Function.update s.nodes i _ j).isMaster = true ↔ _
    rw [Function.update_of_ne here]
    simp [Ne.symm here]

/-- A node becomes the master only by electing itself. -/
theorem step_isMaster (s : Slaves ι) (label : SlavesStep ι) (j : ι) :
    ((s.step label).nodes j).isMaster = true ↔ (s.nodes j).isMaster = true ∨
      ∃ cutoff now, label = .masterUpdate j cutoff now ∧ elect cutoff (s.nodes j) = (s.nodes j).thisurl := by
  cases label with
  | masterUpdate i cutoff now =>
    rw [Slaves.step]
    by_cases already : (s.nodes i).isMaster = true
    · simp only [if_pos already, SlavesStep.masterUpdate.injEq]
      refine ⟨.inl, ?_⟩
      rintro (master | ⟨_, _, ⟨rfl, _⟩, _⟩)
      · exact master
      · exact already
    · have after := setNode_masterUpdate_isMaster s cutoff (Bool.eq_false_iff.mpr already) j
      have begun (call : Call ι) (t : Slaves ι) : (t.begin call).nodes = t.nodes := rfl
      simp only [if_neg already, SlavesStep.masterUpdate.injEq]
      split
      · rw [after]
        simp
      · rw [begun, after]
        simp
  | hostUpdate | loseRequest | loseAnswer => simp [Slaves.step, Slaves.begin]
  | post n =>
    simp only [Slaves.step, reduceCtorEq, false_and, exists_false, or_false]
    split
    · rfl
    · split <;> rfl
  | handle n i now =>
    simp only [Slaves.step, reduceCtorEq, false_and, exists_false, or_false]
    split
    · rfl
    · split
      · rw [handled_isMaster]
      · rfl
  | answer n =>
    simp only [Slaves.step, reduceCtorEq, false_and, exists_false, or_false]
    split
    · rfl
    · split
      · rfl
      · split
        · rw [answered_isMaster]
        · rfl
  | giveUp n =>
    simp only [Slaves.step, reduceCtorEq, false_and, exists_false, or_false]
    split
    · rfl
    · split <;> rfl

/-- From one master a step leads to two exactly if a slave elects itself beside it. -/
theorem oneMaster_step_iff {url : ι → Bytes} {counter : ι → ℕ} {s : Slaves ι} (sane : Sane url counter s)
    (one : OneMaster s) (label : SlavesStep ι) : OneMaster (s.step label) ↔ ¬ ElectsSecond s label := by
  constructor
  · rintro still ⟨i, cutoff, now, rfl, slave, ⟨j, other, master⟩, first⟩
    have elected := (step_isMaster s (.masterUpdate i cutoff now) i).mpr
      (.inr ⟨cutoff, now, rfl, ((sane.nodes i).elect_self_iff cutoff).mpr first⟩)
    exact other (still j i ((step_isMaster s _ j).mpr (.inl master)) elected)
  · intro careful i j masterI masterJ
    -- a node that was elected in this step is not beside an old master
    have beside {i j : ι} (cutoff now : UInt64) (isLabel : label = .masterUpdate i cutoff now)
        (elected : elect cutoff (s.nodes i) = (s.nodes i).thisurl) (master : (s.nodes j).isMaster = true) : i = j := by
      by_contra other
      by_cases already : (s.nodes i).isMaster = true
      · exact other (one i j already master)
      · exact careful ⟨i, cutoff, now, isLabel, Bool.eq_false_iff.mpr already, ⟨j, Ne.symm other, master⟩,
          ((sane.nodes i).elect_self_iff cutoff).mp elected⟩
    rcases (step_isMaster s label i).mp masterI with oldI | ⟨cutoff, now, isLabel, elected⟩
    · rcases (step_isMaster s label j).mp masterJ with oldJ | ⟨cutoff, now, isLabel, elected⟩
      · exact one i j oldI oldJ
      · exact (beside cutoff now isLabel elected oldI).symm
    · rcases (step_isMaster s label j).mp masterJ with oldJ | ⟨_, _, isLabel', _⟩
      · exact beside cutoff now isLabel elected oldJ
      · rw [isLabel] at isLabel'
        cases isLabel'
        rfl

/-- Slaves whose master is gone: none is the master, no call runs, and no report is ahead of the slave that it
is about. -/
structure Orphaned (s : Slaves ι) : Prop where
  distinct : Function.Injective fun i => (s.nodes i).thisurl
  slaves : ∀ i, (s.nodes i).isMaster = false
  idle : s.calls = [] ∧ s.requests = [] ∧ s.answers = []
  sane : ∀ i, SaneNode (fun i => (s.nodes i).thisurl) (fun i => (s.nodes i).logcounter) i (s.nodes i)

/-- In every run of slaves whose master is gone, whatever messages are lost or come late, there never are two
masters exactly if no slave elects a master, beside one that is elected already, without having heard of a
node that is ahead of itself. -/
theorem oneMaster_iff {start : Slaves ι} (orphaned : Orphaned start) (labels : List (SlavesStep ι)) :
    (∀ i, OneMaster (Run.final Slaves.step start (labels.take i))) ↔
      Run.Guarded Slaves.step (fun s label => ¬ ElectsSecond s label) start labels := by
  have sane : Sane (fun i => (start.nodes i).thisurl) (fun i => (start.nodes i).logcounter) start := by
    obtain ⟨calls, requests, answers⟩ := orphaned.idle
    refine ⟨orphaned.sane, ?_, ?_, ?_⟩
    · rw [calls]
      exact fun _ member => (List.not_mem_nil member).elim
    · rw [requests]
      exact fun _ member => (List.not_mem_nil member).elim
    · rw [answers]
      exact fun _ member => (List.not_mem_nil member).elim
  refine @Run.weak_iff_guarded _ _ Slaves.step OneMaster (fun s => Sane (fun i => (start.nodes i).thisurl)
    (fun i => (start.nodes i).logcounter) s ∧ OneMaster s) _ (fun _ strong => strong.2)
    (fun s label strong => oneMaster_step_iff strong.1 strong.2 label) (fun s label strong careful => ?_) start
    ⟨sane, fun i j master => ?_⟩ labels
  · exact ⟨strong.1.step orphaned.distinct label, (oneMaster_step_iff strong.1 strong.2 label).mpr careful⟩
  · rw [orphaned.slaves i] at master
    contradiction

end Election

/-- Two slaves that last heard of each other before their master failed. -/
def twoOrphans : Slaves Bool where
  nodes second :=
    if second then { thisurl := ascii "b", logcounter := 5, remotes := [(ascii "a", 3, 1)] }
    else { thisurl := ascii "a", logcounter := 3, remotes := [(ascii "b", 5, 1)] }

theorem orphaned_twoOrphans : Orphaned twoOrphans where
  distinct := by decide
  slaves := by decide
  idle := ⟨rfl, rfl, rfl⟩
  sane i := by
    refine ⟨rfl, rfl, ?_, ?_⟩
    · revert i
      decide
    · unfold Fits
      revert i
      decide

/-- Both tell the other their state, the messages are lost, and both elect a master. -/
def lostMessages : List (SlavesStep Bool) :=
  [.hostUpdate false 6, .post 0, .loseRequest 0, .giveUp 0, .hostUpdate true 6, .post 1, .loseRequest 0, .giveUp 1,
    .masterUpdate false 5 7, .masterUpdate true 5 7]

theorem oneMaster_iff_twoOrphans : (∀ i, OneMaster (Run.final Slaves.step twoOrphans (lostMessages.take i))) ↔
    Run.Guarded Slaves.step (fun s label => ¬ ElectsSecond s label) twoOrphans lostMessages :=
  oneMaster_iff orphaned_twoOrphans lostMessages

/-- Both slaves are masters in the end. -/
theorem lostMessages_two_masters :
    Orphaned twoOrphans ∧ ¬ ∀ i, OneMaster (Run.final Slaves.step twoOrphans (lostMessages.take i)) := by
  refine ⟨orphaned_twoOrphans, fun one => ?_⟩
  have same := one 10 false true (by decide +kernel) (by decide +kernel)
  contradiction

end Identt.Hrpc
