import Identt.Hrpc.HostMessages
import Identt.Hrpc.HrpcClient

/-! # Telling all others (`HostUpdate`)

A node sends its state to every remote in turn. The message is also the buffer for the answers, so each
remote gets what the answers before left in it.
-/

namespace Identt.Hrpc

open Query

/-- The `R_SETINFO` endpoint: the answer is the state of the node that was told. -/
def setInfo (st : SharedTable) (data : StateT) (now : UInt64) : StateT × SharedTable :=
  let st := setHosts st data
  (getHosts st now, st)

section HostUpdate

variable (codec : Codec StateT) (sharedSecret : Bytes) (post : Bytes → HttpRequest → HttpResponse)

/-- The message after a call to a remote. -/
def afterCall (state : StateT) (address : Bytes) : StateT :=
  (sendToRemote codec sharedSecret .rSetInfo state (post address)).2

/-- The loop of `HostUpdate`: what is sent to which remote. -/
def intimate (state : StateT) : List Bytes → List (Bytes × StateT)
  | [] => []
  | address :: rest => (address, state) :: intimate (afterCall codec sharedSecret post state address) rest

def hostUpdate (st : SharedTable) (now : UInt64) : List (Bytes × StateT) :=
  intimate codec sharedSecret post (getHosts st now) (st.remotes.map Prod.fst)

variable {codec sharedSecret post}

/-- Every remote is told something. -/
theorem intimate_addresses (state : StateT) (addresses : List Bytes) :
    (intimate codec sharedSecret post state addresses).map Prod.fst = addresses := by
  induction addresses generalizing state with
  | nil => rfl
  | cons address rest ih => rw [intimate, List.map_cons, ih]

/-- All remotes are told the same exactly if no answer but the last one changes the message. -/
theorem intimate_eq_iff (state : StateT) (addresses : List Bytes) :
    (∀ sent ∈ intimate codec sharedSecret post state addresses, sent.2 = state) ↔
      ∀ address ∈ addresses.dropLast, afterCall codec sharedSecret post state address = state := by
  induction addresses with
  | nil => simp [intimate]
  | cons address rest ih =>
    rw [intimate, List.forall_mem_cons]
    cases rest with
    | nil => simp [intimate]
    | cons next rest =>
      rw [List.dropLast_cons_of_ne_nil (List.cons_ne_nil next rest), List.forall_mem_cons, ← ih]
      constructor
      · rintro ⟨_, later⟩
        -- the second remote is told what the first answer left
        have left := later _ (List.mem_cons_self ..)
        rw [show afterCall codec sharedSecret post state address = state from left] at later
        exact ⟨left, later⟩
      · rintro ⟨left, later⟩
        rw [left]
        exact ⟨rfl, later⟩

/-- `HostUpdate` tells every remote the state of the node exactly if, for every remote but the last one in the
order of the map, the call leaves that state in the message. -/
theorem hostUpdate_tells_all_iff (st : SharedTable) (now : UInt64) :
    hostUpdate codec sharedSecret post st now = st.remotes.map (fun p => (p.1, getHosts st now)) ↔
      ∀ address ∈ (st.remotes.map Prod.fst).dropLast,
        afterCall codec sharedSecret post (getHosts st now) address = getHosts st now := by
  rw [← intimate_eq_iff]
  constructor
  · intro tells sent member
    rw [show intimate codec sharedSecret post (getHosts st now) (st.remotes.map Prod.fst) = _ from tells] at member
    obtain ⟨p, _, rfl⟩ := List.mem_map.mp member
    rfl
  · intro own
    calc hostUpdate codec sharedSecret post st now
        = ((hostUpdate codec sharedSecret post st now).map Prod.fst).map fun address => (address, getHosts st now) := by
          rw [List.map_map]
          exact (List.map_id _).symm.trans (List.map_congr_left fun sent member => Prod.ext rfl (own sent member))
      _ = (st.remotes.map Prod.fst).map fun address => (address, getHosts st now) := by
          rw [hostUpdate, intimate_addresses]
      _ = st.remotes.map fun p => (p.1, getHosts st now) := by
          rw [List.map_map]
          rfl

end HostUpdate

/-- A slave that knows two others. -/
def caller : SharedTable where
  thisurl := ascii "a"
  logcounter := 3
  remotes := [(ascii "b", 1, 1), (ascii "c", 1, 1)]

def firstRemote : SharedTable where
  thisurl := ascii "b"
  logcounter := 5

def callerState : StateT := { thisurl := ascii "a", logcounter := 3, ts := 7 }

def remoteState : StateT := { thisurl := ascii "b", logcounter := 5, ts := 7 }

/-- Serialising and parsing, as far as these two states go. -/
def twoStates : Codec StateT where
  serialize state :=
    if state = callerState then [32, 3, 56, 7, 66, 1] ++ ascii "a"
    else if state = remoteState then [32, 5, 56, 7, 66, 1] ++ ascii "b"
    else []
  parse text :=
    if text = [32, 3, 56, 7, 66, 1] ++ ascii "a" then (true, callerState)
    else if text = [32, 5, 56, 7, 66, 1] ++ ascii "b" then (true, remoteState)
    else (false, {})

/-- The first remote answers with its state, the second one cannot be reached. -/
def firstAnswers (address : Bytes) (_request : HttpRequest) : HttpResponse :=
  if address = ascii "b" then
    { base64 := true, text := b64Encode (twoStates.serialize (setInfo firstRemote callerState 7).1) }
  else { statusCode := 500 }

/-- The second remote is told the state of the first one. -/
theorem second_told_first : hostUpdate twoStates (ascii "s") firstAnswers caller 7 =
      [(ascii "b", callerState), (ascii "c", remoteState)] ∧
    hostUpdate twoStates (ascii "s") firstAnswers caller 7 ≠
      caller.remotes.map (fun p => (p.1, getHosts caller 7)) := by
  have sent : hostUpdate twoStates (ascii "s") firstAnswers caller 7 =
      [(ascii "b", callerState), (ascii "c", remoteState)] := by decide +kernel
  refine ⟨sent, ?_⟩
  rw [sent]
  decide

end Identt.Hrpc
