import Identt.Hrpc.AlikeNodes
import Identt.Hrpc.Forwarding
import Identt.Hrpc.Network
import Identt.Hrpc.ReplicatedTables
import Identt.Query.Endpoints

/-! # A cluster answers its clients as one server does

Clients call any node. Whatever changes the data is done by the master, for a slave's clients through a post that may
get lost; the rest a node answers from its own data. So the master does what a single server would do with the actions
that get to it, and a slave reads what that server had before some of them.
-/

namespace Identt.Hrpc

open Store StoreTrans Query

/-- What the nodes of a cluster are configured with, and how they write their posts. -/
structure Servers (ι D : Type) where
  libs : WebLibs D
  site : ι → Site
  codec : MasterCmdTypeE → Codec MasterRequest
  whoIs : Bytes → Option ι

inductive ServersStep (ι : Type) where
  /-- A node has an action done for a client. -/
  | act (i : ι) (request : MasterRequest) (env : ActionEnv) (delivery : Delivery)
  | nodes (label : NodesStep ι)

namespace Servers

variable {ι D : Type} [DecidableEq ι] (c : Servers ι D) (s : ι → Node)

/-- The post of a node for an action. -/
def post (i : ι) (request : MasterRequest) : HttpRequest :=
  protoPost request.serviceId.number (c.site i).sharedSecret
    (b64Encode ((c.codec request.serviceId).serialize request))

/-- The answer of the node at an address to a post, and what it leaves; without an answer there is no status. -/
def atMaster (address : Bytes) (env : ActionEnv) (delivery : Delivery) (r : HttpRequest) :
    HttpResponse × (ι → Node) :=
  match c.whoIs address with
  | none => ({ statusCode := 0 }, s)
  | some j =>
    let (answer, table) := masterAnswer c.codec (c.site j).sharedSecret (c.site j).isReady env (s j).table r
    match delivery with
    | .lost => ({ statusCode := 0 }, s)
    | .answerLost => ({ statusCode := 0 }, Function.update s j { s j with table := table })
    | .answered => (answer, Function.update s j { s j with table := table })

/-- An endpoint's action, on the master itself or through `SendToMaster`. -/
def act (i : ι) (request : MasterRequest) (env : ActionEnv) (delivery : Delivery) :
    Except Caught MasterRequest × (ι → Node) :=
  if (s i).table.isMaster then
    let (result, table) := serve (s i).table request env
    (result.mapError caught, Function.update s i { s i with table := table })
  else
    let received := sendToMaster (c.codec request.serviceId) (c.site i).sharedSecret request.serviceId request fun r =>
      (c.atMaster s (s i).table.master env delivery r).1
    (received.mapError caughtClient, (c.atMaster s (s i).table.master env delivery (c.post i request)).2)

/-- What the client of the node gets for it. -/
def answer (i : ι) (request : MasterRequest) (env : ActionEnv) (delivery : Delivery) : Except Caught Bytes :=
  (c.act s i request env delivery).1 >>= aftermath c.libs

/-- The page that it is sent. -/
def page (i : ι) (request : MasterRequest) (env : ActionEnv) (delivery : Delivery) : Page :=
  pageOf c.libs (c.answer s i request env delivery)

/-- The request that is served for it, if one is. -/
def takes (i : ι) (request : MasterRequest) (delivery : Delivery) : Option MasterRequest :=
  if (s i).table.isMaster then some request
  else if delivery = .lost then none
  else do
    let j ← c.whoIs (s i).table.master
    (accepted c.codec (c.site j).sharedSecret (c.site j).isReady (s j).table (c.post i request)).bind Except.toOption

def step : ServersStep ι → ι → Node
  | .act i request env delivery => (c.act s i request env delivery).2
  | .nodes label => nodesStep s label

/-- The requests that a step has served. -/
def served : ServersStep ι → List (MasterRequest × ActionEnv)
  | .act i request env delivery => (c.takes s i request delivery).toList.map fun request => (request, env)
  | .nodes _ => []

end Servers

/-- A single server, which only has requests to serve. -/
def soloStep (st : SharedTable) (call : MasterRequest × ActionEnv) : SharedTable := (serve st call.1 call.2).2

/-- What its clients get for an action. -/
def soloAnswer {D : Type} (libs : WebLibs D) (st : SharedTable) (request : MasterRequest) (env : ActionEnv) :
    Except Caught Bytes := (serve st request env).1.mapError caught >>= aftermath libs

/-- An error without its code, as the endpoint of the master reports it. -/
def uncoded (e : Caught) : Caught := { e with ecode := mUnknown }

section Act

variable {ι D : Type} [DecidableEq ι] {c : Servers ι D} {s : ι → Node} {m i : ι} {request : MasterRequest}
  {env : ActionEnv} {delivery : Delivery}

/-- What comes back for a request that a slave posts is what the master makes of it, but for the code of an error. -/
theorem forward_caught {codec : MasterCmdTypeE → Codec MasterRequest} {wellFormed : MasterRequest → Prop}
    (lossless : ∀ msg, wellFormed msg →
      (codec msg.serviceId).parse ((codec msg.serviceId).serialize msg) = (true, msg))
    {sharedSecret : Bytes} {st : SharedTable} (isMaster : st.isMaster = true) (sends : wellFormed request)
    (answers : ∀ reply, (serve st request env).1 = .ok reply → wellFormed reply) :
    (forward codec sharedSecret env st request).mapError caughtClient =
      ((serve st request env).1.mapError caught).mapError uncoded := by
  rw [forward_eq lossless isMaster sends answers]
  cases (serve st request env).1 with
  | ok reply => rfl
  | error e =>
    have code : caughtClient (.sydent (what e) mUnknown) = uncoded (caught e) := rfl
    exact congrArg Except.error code

theorem aftermath_uncoded (libs : WebLibs D) (result : Except Caught MasterRequest) :
    (result.mapError uncoded >>= aftermath libs) = (result >>= aftermath libs).mapError uncoded := by
  cases result with
  | error e => rfl
  | ok reply =>
    change aftermath libs reply = (aftermath libs reply).mapError uncoded
    cases reply with
    | setBlobData bdata =>
      rw [aftermath]
      split <;> rfl
    | requestToken | submitToken | getValidated3pid | bind3pid | storeInvite | pending | getAccessKey => rfl

/-- The node after serving a request. -/
def afterServing (s : ι → Node) (m : ι) (request : MasterRequest) (env : ActionEnv) : ι → Node :=
  Function.update s m { s m with table := (serve (s m).table request env).2 }

theorem act_master (isMaster : (s i).table.isMaster = true) :
    c.act s i request env delivery =
      ((serve (s i).table request env).1.mapError caught, afterServing s i request env) := by
  rw [Servers.act, if_pos isMaster]
  rfl

/-- There is an error with the code that says nothing. -/
def Unknown {α : Type} (result : Except Caught α) : Prop := ∃ text, result = .error ⟨mUnknown, text⟩

/-- Without an answer of the endpoint, or with an error as the answer, there is an error. -/
theorem sendToMaster_refused {codec : Codec MasterRequest} {sharedSecret : Bytes} {post : HttpRequest → HttpResponse}
    (refuses : (post (protoPost request.serviceId.number sharedSecret (b64Encode (codec.serialize request)))).statusCode =
        0 ∨
      ∃ text, post (protoPost request.serviceId.number sharedSecret (b64Encode (codec.serialize request))) =
        serviceErrAction (protoPost request.serviceId.number sharedSecret (b64Encode (codec.serialize request)))
          mUnknown text) :
    Unknown ((sendToMaster codec sharedSecret request.serviceId request post).mapError caughtClient) := by
  rw [sendToMaster, if_neg (serviceId_ne_noAction request)]
  rcases refuses with lost | ⟨text, failed⟩
  · refine ⟨ascii "Cannot connect to master, bad HTTP Status", ?_⟩
    simp only [lost]
    rfl
  · simp only [failed, serviceErrAction, answered_masterCmd]
    exact ⟨_, rfl⟩

theorem answer_unknown {libs : WebLibs D} {result : Except Caught MasterRequest} (unknown : Unknown result) :
    Unknown (result >>= aftermath libs) := by
  obtain ⟨text, rfl⟩ := unknown
  exact ⟨text, rfl⟩

/-- What nobody takes changes nothing, and its client gets an error. -/
theorem act_untaken (untaken : c.takes s i request delivery = none) :
    (c.act s i request env delivery).2 = s ∧ Unknown (c.act s i request env delivery).1 := by
  rw [Servers.takes] at untaken
  split at untaken
  · contradiction
  · next slave =>
    rw [Servers.act, if_neg slave]
    cases known : c.whoIs (s i).table.master with
    | none =>
      simp only [Servers.atMaster, known]
      exact ⟨trivial, sendToMaster_refused (.inl rfl)⟩
    | some j =>
      simp only [Servers.atMaster, known]
      split at untaken
      · next lost =>
        subst lost
        exact ⟨rfl, sendToMaster_refused (.inl rfl)⟩
      · obtain ⟨result, checked⟩ : ∃ result, accepted c.codec (c.site j).sharedSecret (c.site j).isReady (s j).table
            (c.post i request) = some result := accepted_protoPost ..
        have refused : ∃ e, result = .error e := by
          rw [known] at untaken
          change (accepted c.codec (c.site j).sharedSecret (c.site j).isReady (s j).table
            (c.post i request)).bind Except.toOption = none at untaken
          rw [checked] at untaken
          cases result with
          | error e => exact ⟨e, rfl⟩
          | ok taken => contradiction
        obtain ⟨e, rfl⟩ := refused
        have answers : masterAnswer c.codec (c.site j).sharedSecret (c.site j).isReady env (s j).table
            (c.post i request) = (serviceErrAction (c.post i request) mUnknown (what e), (s j).table) := by
          rw [masterAnswer, masterEndpoint, checked]
          rfl
        rw [answers]
        cases delivery with
        | lost => contradiction
        | answerLost => exact ⟨Function.update_eq_self .., sendToMaster_refused (.inl rfl)⟩
        | answered =>
          refine ⟨Function.update_eq_self .., sendToMaster_refused (.inr ⟨what e, ?_⟩)⟩
          exact congrArg Prod.fst answers

/-- The endpoint takes posts with its secret only, and only on a master that is ready. -/
theorem accepted_eq_ok {codec : MasterCmdTypeE → Codec MasterRequest} {sharedSecret : Bytes} {isReady : Bool}
    {st : SharedTable} {r : HttpRequest} (taken : accepted codec sharedSecret isReady st r = some (.ok request)) :
    sharedSecretOK r sharedSecret = true ∧ isReady = true ∧ st.isMaster = true := by
  obtain ⟨isProto, _, taken⟩ := Option.map_eq_some_iff.mp taken
  obtain ⟨_, _, taken⟩ := bind_eq_ok.mp taken
  obtain ⟨_, secret, taken⟩ := bind_eq_ok.mp taken
  obtain ⟨_, _, taken⟩ := bind_eq_ok.mp taken
  obtain ⟨_, ready, taken⟩ := bind_eq_ok.mp taken
  obtain ⟨_, master, _⟩ := bind_eq_ok.mp taken
  exact ⟨require_eq_ok.mp secret, require_eq_ok.mp ready, require_eq_ok.mp master⟩

section Taken

variable {wellFormed : MasterRequest → Prop}
  (lossless : ∀ msg, wellFormed msg →
    (c.codec msg.serviceId).parse ((c.codec msg.serviceId).serialize msg) = (true, msg))
include lossless

/-- What is taken from a slave is what it posts, and the master serves it. -/
theorem act_taken (one : ∀ j, (s j).table.isMaster = true → j = m) (slave : (s i).table.isMaster = false)
    (sends : wellFormed request) (answers : ∀ reply, (serve (s m).table request env).1 = .ok reply → wellFormed reply)
    {taken : MasterRequest} (takes : c.takes s i request delivery = some taken) :
    taken = request ∧ (c.act s i request env delivery).2 = afterServing s m request env ∧
      (delivery = .answered ∧ (c.act s i request env delivery).1 =
          ((serve (s m).table request env).1.mapError caught).mapError uncoded ∨
        delivery = .answerLost ∧ Unknown (c.act s i request env delivery).1) := by
  have notMaster : ¬ (s i).table.isMaster = true := by simp [slave]
  rw [Servers.takes, if_neg notMaster] at takes
  split at takes
  · contradiction
  · next notLost =>
    obtain ⟨j, known, takes⟩ := Option.bind_eq_some_iff.mp takes
    obtain ⟨result, checked, takes⟩ := Option.bind_eq_some_iff.mp takes
    have accepts : accepted c.codec (c.site j).sharedSecret (c.site j).isReady (s j).table (c.post i request) =
        some (.ok taken) := by
      cases result with
      | error e => contradiction
      | ok other =>
        rw [checked]
        exact congrArg (some ∘ Except.ok) (Option.some.inj takes)
    obtain ⟨secret, ready, isMaster⟩ := accepted_eq_ok accepts
    obtain rfl := one j isMaster
    have secret : (c.site i).sharedSecret = (c.site j).sharedSecret := by
      rw [Servers.post, sharedSecretOK_protoPost] at secret
      exact of_decide_eq_true secret
    have same : accepted c.codec (c.site j).sharedSecret true (s j).table (c.post i request) =
        some (.ok request) := by
      rw [← secret]
      exact accepted_forward lossless isMaster sends
    rw [ready, same] at accepts
    obtain rfl := Except.ok.inj (Option.some.inj accepts)
    have after : (masterAnswer c.codec (c.site j).sharedSecret true env (s j).table (c.post i request)).2 =
        (serve (s j).table request env).2 := by
      rw [masterAnswer, masterEndpoint, same, Option.map_some, Option.getD_some]
      simp only
      split <;> simp [*]
    rw [Servers.act, if_neg notMaster]
    simp only [Servers.atMaster, known, ready]
    cases delivery with
    | lost => contradiction
    | answerLost =>
      refine ⟨trivial, ?_, .inr ⟨rfl, sendToMaster_refused (.inl rfl)⟩⟩
      simp only [after]
      rfl
    | answered =>
      refine ⟨trivial, ?_, .inl ⟨rfl, ?_⟩⟩
      · simp only [after]
        rfl
      · have comes : (forward c.codec (c.site i).sharedSecret env (s j).table request).mapError caughtClient = _ :=
          forward_caught lossless isMaster sends answers
        rw [← comes, forward]
        simp only [secret]

end Taken

end Act

section Run

variable {ι D : Type} [DecidableEq ι] {base : DB} {c : Servers ι D} {m : ι} {s : ι → Node}

theorem built_offLog {db : DB} {transaction : TransactionT} {ops : List TableOp} (built : Built db transaction ops) :
    ItemsOffLog transaction.item := by
  rw [built.items]
  intro item member
  obtain ⟨op, _, member⟩ := List.mem_flatMap.mp member
  apply DataKey.not_log
  cases op with
  | add name record => exact ⟨name, name.table.recordItems_hasType member⟩
  | del name record => exact ⟨name, name.table.removeItems_hasType member⟩

theorem serve_isMaster {st : SharedTable} (invariant : TableInvariant st.maindb) (request : MasterRequest)
    (env : ActionEnv) : (serve st request env).2.isMaster = st.isMaster := by
  obtain ⟨counter, _, same | ⟨transaction, ops, _, _, same⟩⟩ := serve_outcome invariant request env
  · rw [same]
  · rw [same]
    exact commit_isMaster

/-- The master after taking identifiers. -/
def taking (s : ι → Node) (m : ι) (counter : ℕ) : ι → Node :=
  Function.update s m { s m with table := { (s m).table with maincounter := counter } }

theorem forgets_taking (s : ι → Node) (m : ι) (counter : ℕ) (k : ι) : Forgets (s k) (taking s m counter k) := by
  rw [taking]
  by_cases here : k = m
  · subst here
    rw [Function.update_self]
    exact ⟨rfl, rfl, rfl, rfl, fun _ member => member⟩
  · rw [Function.update_of_ne here]
    exact Forgets.refl _

/-- Serving a request takes identifiers, and may be a write of the master besides. -/
theorem afterServing_cases (isMaster : (s m).table.isMaster = true) (invariant : TableInvariant (s m).table.maindb)
    (request : MasterRequest) (env : ActionEnv) :
    ∃ counter, afterServing s m request env = taking s m counter ∨
      ∃ transaction, ItemsOffLog transaction.item ∧
        afterServing s m request env = nodesStep (taking s m counter) (.write m env.commit transaction) := by
  obtain ⟨counter, _, same | ⟨transaction, ops, _, built, same⟩⟩ := serve_outcome invariant request env
  · exact ⟨counter, .inl (by rw [afterServing, same, taking])⟩
  · refine ⟨counter, .inr ⟨transaction, built_offLog built, ?_⟩⟩
    have writes : (taking s m counter m).write env.commit transaction =
        { s m with table := (serve (s m).table request env).2 } := by
      rw [taking, Function.update_self, Node.write, if_pos isMaster, same]
    rw [nodesStep, writes, taking, Function.update_idem, afterServing]

/-- The master's step when it serves a request whose writes succeed. -/
theorem Led.afterServing (led : Led base s) (isMaster : (s m).table.isMaster = true)
    (invariant : TableInvariant (s m).table.maindb) (uncached : (s m).table.lookupUsesLocal = false)
    (word : (s m).table.logcounter + 1 < 2 ^ 64) (request : MasterRequest) {env : ActionEnv}
    (logged : env.commit.logPut = true) (written : env.commit.dataWrite = true) :
    Led base (afterServing s m request env) ∧
      (∀ k, (s k).table.logcounter ≤ (Hrpc.afterServing s m request env k).table.logcounter) ∧
      (Hrpc.afterServing s m request env m).table.logcounter ≤ (s m).table.logcounter + 1 ∧
      ∀ id, 1 ≤ id → id ≤ (s m).table.logcounter →
        logEntry (Hrpc.afterServing s m request env m).table id = logEntry (s m).table id := by
  obtain ⟨counter, cases⟩ := afterServing_cases isMaster invariant request env
  have forgets := forgets_taking s m counter
  have taken : Led base (taking s m counter) := led.forgets forgets
  have entry (id : ℕ) : logEntry (taking s m counter m).table id = logEntry (s m).table id := by
    rw [logEntry, SharedTable.logStore, (forgets m).logdb, (forgets m).maindb]
    rfl
  rcases cases with same | ⟨transaction, offLog, same⟩
  · rw [same]
    refine ⟨taken, fun k => (forgets k).logcounter.ge, ?_, fun id _ _ => entry id⟩
    rw [(forgets m).logcounter]
    exact Nat.le_succ _
  · have uncached' : (taking s m counter m).table.lookupUsesLocal = false := by
      rw [taking, Function.update_self]
      exact uncached
    have disciplined : Disciplined (taking s m counter) (.write m env.commit transaction) := by
      refine ⟨offLog, ?_, .inr ⟨logged, written, fun uses => ?_⟩⟩
      · rw [(forgets m).logcounter]
        exact word
      · rw [uncached'] at uses
        contradiction
    have isMaster' : (taking s m counter m).table.isMaster = true := (forgets m).isMaster.trans isMaster
    rw [same]
    refine ⟨taken.step disciplined, fun k => ?_, ?_, fun id positive old => ?_⟩
    · exact (forgets k).logcounter.ge.trans (taken.logcounter_le disciplined k)
    · rw [nodesStep, Function.update_self, Node.write, if_pos isMaster', commit_logcounter, (forgets m).logcounter]
      split <;> omega
    · rw [taken.logEntry_kept disciplined m positive (by rwa [(forgets m).logcounter]), entry]

/-- A server that had the beginning of a node's log up to some identifier, and the data that belong to it. -/
structure Past (base : DB) (st : SharedTable) (n : ℕ) (past : SharedTable) : Prop where
  logcounter : past.logcounter = n
  sound : Identt.Sound base past
  uncached : past.lookupUsesLocal = false
  entries : ∀ id, 1 ≤ id → id ≤ n → logEntry past id = logEntry st id

/-- The master is what the single server is after the calls so far, and has been all that it has been. -/
structure Serving (base : DB) (m : ι) (first : SharedTable) (calls : List (MasterRequest × ActionEnv)) (s : ι → Node) :
    Prop where
  led : Led base s
  isMaster : (s m).table.isMaster = true
  alike : Alike (Run.final soloStep first calls) (s m).table
  tables : TableInvariant (s m).table.maindb
  uncached : ∀ i, (s i).table.lookupUsesLocal = false
  floor : ∀ i, first.logcounter ≤ (s i).table.logcounter
  reached : ∀ n, first.logcounter ≤ n → n ≤ (s m).table.logcounter →
    ∃ k ≤ calls.length, Past base (s m).table n (Run.final soloStep first (calls.take k))

/-- Writes of the master succeed and its log does not overflow, what slaves post survives the trip both ways, and
all else is disciplined. -/
def Allowed (wellFormed : MasterRequest → Prop) (m : ι) (s : ι → Node) : ServersStep ι → Prop
  | .act i request env _ =>
    (i ≠ m → wellFormed request ∧ ∀ reply, (serve (s m).table request env).1 = .ok reply → wellFormed reply) ∧
      (s m).table.logcounter + 1 < 2 ^ 64 ∧ env.commit.logPut = true ∧ env.commit.dataWrite = true
  | .nodes label => Background m label ∧ Disciplined s label

namespace Serving

variable {first : SharedTable} {calls : List (MasterRequest × ActionEnv)}

omit [DecidableEq ι] in
theorem one (serving : Serving base m first calls s) (j : ι) (isMaster : (s j).table.isMaster = true) : j = m :=
  serving.led.one j m isMaster serving.isMaster

/-- The single server as it is now has the master's log up to the end. -/
theorem present {calls : List (MasterRequest × ActionEnv)} {st : SharedTable} (sound : Identt.Sound base st)
    (uncached : st.lookupUsesLocal = false) (alike : Alike (Run.final soloStep first calls) st) :
    Past base st st.logcounter (Run.final soloStep first calls) :=
  ⟨alike.field (·.logcounter), Alike.sound alike.symm sound, (alike.field (·.lookupUsesLocal)).trans uncached,
    fun id _ _ => alike.field (logEntry · id)⟩

theorem background (serving : Serving base m first calls s) {label : NodesStep ι} (background : Background m label)
    (disciplined : Disciplined s label) : Serving base m first calls (nodesStep s label) := by
  have alike := serving.led.alike_background serving.isMaster background
  refine ⟨serving.led.step disciplined, ?_, serving.alike.trans alike, ?_, fun i => ?_, fun i => ?_, fun n low high => ?_⟩
  · exact (alike.field (·.isMaster)).symm.trans serving.isMaster
  · have same : (s m).table.maindb = (nodesStep s label m).table.maindb := alike.field (·.maindb)
    rw [← same]
    exact serving.tables
  · rw [serving.led.lookupUsesLocal_step]
    exact serving.uncached i
  · exact (serving.floor i).trans (serving.led.logcounter_le disciplined i)
  · have counter : (s m).table.logcounter = (nodesStep s label m).table.logcounter := alike.field (·.logcounter)
    obtain ⟨k, bound, past⟩ := serving.reached n low (high.trans counter.ge)
    refine ⟨k, bound, past.logcounter, past.sound, past.uncached, fun id positive old => ?_⟩
    exact (past.entries id positive old).trans (alike.field (logEntry · id))

theorem serve (serving : Serving base m first calls s) (request : MasterRequest) {env : ActionEnv}
    (word : (s m).table.logcounter + 1 < 2 ^ 64) (logged : env.commit.logPut = true)
    (written : env.commit.dataWrite = true) :
    Serving base m first (calls ++ [(request, env)]) (afterServing s m request env) := by
  obtain ⟨led, grows, bound, kept⟩ :=
    serving.led.afterServing serving.isMaster serving.tables (serving.uncached m) word request logged written
  have served : (afterServing s m request env m).table = (Hrpc.serve (s m).table request env).2 := by
    rw [afterServing, Function.update_self]
  have alike : Alike (Run.final soloStep first (calls ++ [(request, env)])) (afterServing s m request env m).table := by
    rw [Run.final_concat, served]
    exact (serving.alike.serve request env).2
  have uncached (i : ι) : (afterServing s m request env i).table.lookupUsesLocal = false := by
    rw [afterServing]
    refine (usesLocal_update ?_).trans (serving.uncached i)
    exact serve_lookupUsesLocal serving.tables request env
  refine ⟨led, ?_, alike, ?_, uncached, fun i => (serving.floor i).trans (grows i), fun n low high => ?_⟩
  · rw [served, serve_isMaster serving.tables]
    exact serving.isMaster
  · rw [served]
    exact serve_tables serving.tables request env
  · rcases Nat.lt_or_ge (s m).table.logcounter n with isNew | old
    · -- the identifier was given out for this request
      have isLast : n = (afterServing s m request env m).table.logcounter := by omega
      subst isLast
      refine ⟨_, le_rfl, ?_⟩
      rw [List.take_length]
      exact present (led.sound m) (uncached m) alike
    · obtain ⟨k, inside, past⟩ := serving.reached n low old
      refine ⟨k, by simp; omega, ?_⟩
      rw [List.take_append_of_le_length inside]
      refine ⟨past.logcounter, past.sound, past.uncached, fun id positive below => ?_⟩
      exact (past.entries id positive below).trans (kept id positive (below.trans old)).symm

section Step

variable {wellFormed : MasterRequest → Prop}
  (lossless : ∀ msg, wellFormed msg →
    (c.codec msg.serviceId).parse ((c.codec msg.serviceId).serialize msg) = (true, msg))
include lossless

/-- An action is either served, by the master as it is, or changes nothing. -/
theorem act_cases (serving : Serving base m first calls s) {i : ι} {request : MasterRequest} {env : ActionEnv}
    {delivery : Delivery} (allowed : Allowed wellFormed m s (.act i request env delivery)) :
    (c.takes s i request delivery = none ∧ i ≠ m ∧ (c.act s i request env delivery).2 = s ∧
        Unknown (c.answer s i request env delivery)) ∨
    (c.takes s i request delivery = some request ∧
      (c.act s i request env delivery).2 = afterServing s m request env ∧
      (i = m → c.answer s i request env delivery = soloAnswer c.libs (s m).table request env) ∧
      (i ≠ m → delivery = .answered ∧
          c.answer s i request env delivery = (soloAnswer c.libs (s m).table request env).mapError uncoded ∨
        delivery = .answerLost ∧ Unknown (c.answer s i request env delivery))) := by
  by_cases here : i = m
  · subst here
    refine .inr ⟨if_pos serving.isMaster, ?_, fun _ => ?_, fun other => (other rfl).elim⟩
    · rw [act_master serving.isMaster]
    · rw [Servers.answer, act_master serving.isMaster]
      rfl
  · have slave : (s i).table.isMaster = false := by
      by_contra isMaster
      exact here (serving.one i (by simpa using isMaster))
    obtain ⟨sends, answers⟩ := allowed.1 here
    cases takes : c.takes s i request delivery with
    | none =>
      have untaken : (c.act s i request env delivery).2 = s ∧ Unknown (c.act s i request env delivery).1 :=
        act_untaken takes
      exact .inl ⟨rfl, here, untaken.1, answer_unknown untaken.2⟩
    | some taken =>
      obtain ⟨rfl, after, answer⟩ := act_taken lossless serving.one slave sends answers takes
      refine .inr ⟨rfl, after, fun same => (here same).elim, fun _ => ?_⟩
      rcases answer with ⟨heard, answer⟩ | ⟨unheard, unknown⟩
      · refine .inl ⟨heard, ?_⟩
        rw [Servers.answer, answer, aftermath_uncoded]
        rfl
      · exact .inr ⟨unheard, answer_unknown unknown⟩

theorem step (serving : Serving base m first calls s) {label : ServersStep ι} (allowed : Allowed wellFormed m s label) :
    Serving base m first (calls ++ c.served s label) (c.step s label) ∧
      ∀ i, (s i).table.logcounter ≤ (c.step s label i).table.logcounter := by
  cases label with
  | nodes label =>
    rw [Servers.served, List.append_nil]
    exact ⟨serving.background allowed.1 allowed.2, serving.led.logcounter_le allowed.2⟩
  | act i request env delivery =>
    have ⟨_, word, logged, written⟩ := allowed
    rw [Servers.served, Servers.step]
    rcases serving.act_cases lossless allowed with ⟨takes, _, same, _⟩ | ⟨takes, after, _⟩
    · rw [takes, same]
      exact ⟨by simpa using serving, fun _ => le_rfl⟩
    · rw [takes, after]
      exact ⟨serving.serve request word logged written, (serving.led.afterServing serving.isMaster serving.tables
        (serving.uncached m) word request logged written).2.1⟩

end Step

/-- What a node reads by itself the single server had before one of its calls, or has now. -/
theorem reads (serving : Serving base m first calls s) (i : ι) : ∃ k ≤ calls.length, (i = m → k = calls.length) ∧
    (Run.final soloStep first (calls.take k)).logcounter = (s i).table.logcounter ∧
    ∀ {D : Type} (libs : WebLibs D) (site : Site) (endpoint : Endpoint) (r : WebRequest),
      endpoint.handle libs site (s i).table r =
        endpoint.handle libs site { Run.final soloStep first (calls.take k) with hostname := (s i).table.hostname } r := by
  have bound := serving.led.logcounter_le_master serving.isMaster i
  have found : ∃ k ≤ calls.length, (i = m → k = calls.length) ∧
      Past base (s m).table (s i).table.logcounter (Run.final soloStep first (calls.take k)) := by
    by_cases here : i = m
    · subst here
      refine ⟨calls.length, le_rfl, fun _ => rfl, ?_⟩
      rw [List.take_length]
      exact present (serving.led.sound i) (serving.uncached i) serving.alike
    · obtain ⟨k, inside, past⟩ := serving.reached _ (serving.floor i) bound
      exact ⟨k, inside, fun same => (here same).elim, past⟩
  obtain ⟨k, inside, isLast, past⟩ := found
  refine ⟨k, inside, isLast, past.logcounter, fun libs site endpoint r => ?_⟩
  have same : SameData (s i).table.maindb (Run.final soloStep first (calls.take k)).maindb := by
    refine sameData_of_sameLog (serving.led.sound i) past.sound past.logcounter.symm fun id positive old => ?_
    have shorter := (serving.led.logPrefix bound).2 id positive
    rw [if_pos old] at shorter
    rw [shorter, past.entries id positive old]
  generalize renamed : { Run.final soloStep first (calls.take k) with hostname := (s i).table.hostname } = st
  have sameData : SameData (s i).table.maindb st.maindb := by
    rw [← renamed]
    exact same
  have uncached : st.lookupUsesLocal = false := by
    rw [← renamed]
    exact past.uncached
  exact handle_congr sameData (by rw [← renamed]) (serving.uncached i) uncached endpoint r

end Serving

/-- Nodes that have been brought to the same state, of which one is the master. -/
structure Level (base : DB) (m : ι) (start : ι → Node) : Prop where
  led : Led base start
  isMaster : (start m).table.isMaster = true
  level : ∀ i, (start i).table.logcounter = (start m).table.logcounter
  tables : TableInvariant (start m).table.maindb
  uncached : ∀ i, (start i).table.lookupUsesLocal = false

omit [DecidableEq ι] in
theorem Level.serving {start : ι → Node} (level : Level base m start) : Serving base m (start m).table [] start := by
  refine ⟨level.led, level.isMaster, rfl, level.tables, level.uncached, fun i => (level.level i).ge, fun n low high => ?_⟩
  obtain rfl := le_antisymm low high
  exact ⟨0, le_rfl, Serving.present (level.led.sound m) (level.uncached m) rfl⟩

section Runs

variable {wellFormed : MasterRequest → Prop}
  (lossless : ∀ msg, wellFormed msg →
    (c.codec msg.serviceId).parse ((c.codec msg.serviceId).serialize msg) = (true, msg))
  {start : ι → Node} (level : Level base m start) {labels : List (ServersStep ι)}
  (allowed : Run.Guarded c.step (Allowed wellFormed m) start labels)
include lossless level allowed

end Runs

end Run

end Identt.Hrpc
