import Identt.Hrpc.MasterRun
import Identt.Hrpc.SlaveReads

/-! # The tables of all nodes

A master writes what its services prepared from its own data. So on every node, whoever is the master by
now, the tables stay as a master keeps them: each record with its keys and no other keys.
-/

namespace Identt.Hrpc

open Store StoreTrans ReadM

variable {ι : Type} [DecidableEq ι] {base : DB} {start : ι → Node} {labels : List (NodesStep ι)}

/-- What is written is what a service made of a request. -/
def Requested (s : ι → Node) : NodesStep ι → Prop
  | .write i _ transaction => ∃ (request : MasterRequest) (env : ActionEnv) (counter counter' : ℕ)
      (prepared : Prepared MasterRequest), Gives (request.read (s i).table env) counter prepared counter' ∧
        prepared.trans = some transaction
  | _ => True

theorem SameData.tableInvariant {db db' : DB} (same : SameData db db') (invariant : TableInvariant db') :
    TableInvariant db :=
  (RepresentsAll.frame invariant fun key data => same key data.not_log).invariant

omit [DecidableEq ι] in
/-- A write that a service prepared keeps the tables, whether it gets through or not. -/
theorem Requested.keeps {s : ι → Node} {i : ι} {env : CommitEnv} {transaction : TransactionT}
    (requested : Requested s (.write i env transaction)) (invariant : TableInvariant (s i).table.maindb) :
    TableInvariant ((s i).write env transaction).table.maindb := by
  obtain ⟨request, actionEnv, counter, counter', prepared, gives, commits⟩ := requested
  obtain ⟨ops, _, built⟩ := read_writes invariant gives commits
  rw [Node.write]
  split
  · exact (commit_represents (s i).table invariant built env true).invariant
  · exact invariant

/-- Through any failovers, the tables of every node keep the invariant in every state, if they have it on the first
start and masters write what their services prepare. -/
theorem tables_keep_everywhere (led : Led base start) (blank : Blank start)
    (disciplined : Run.Guarded nodesStep Disciplined start labels)
    (invariant : ∀ i, TableInvariant (start i).table.maindb) (requested : Run.Guarded nodesStep Requested start labels)
    (n : ℕ) (i : ι) : TableInvariant (Run.final nodesStep start (labels.take n) i).table.maindb := by
  apply data_keeps SameData.tableInvariant led blank disciplined invariant
  rintro n label here i env transaction rfl _ before
  exact Requested.keeps (requested n _ here) before

def inviteRequest : MasterRequest := .storeInvite
  { invqry := { medium := ascii "email", address := ascii "a@x.com", roomId := ascii "r", sender := ascii "s" } }

def inviteEnv : ActionEnv where
  currtime := 5
  commit := { now := 5 }
  uuid := ascii "t"
  publicKey := ascii "k"
  secretKey := ascii "p"

/-- What a node on an empty store makes of the invite. -/
def invitation : TransactionT :=
  (((inviteRequest.read (freshPair true).table inviteEnv).run 1).1.toOption.bind (·.trans)).getD {}

/-- The master stores an invite, and its slave gets it. -/
def inviteAndFollow : List (NodesStep Bool) :=
  [.write true { now := 5 } invitation, .ask false true 10 6 6, .next false { now := 7 }]

theorem tables_keep_everywhere_inviteAndFollow :
    TableInvariant (Run.final nodesStep freshPair (inviteAndFollow.take 3) false).table.maindb := by
  have offLog : ItemsOffLog invitation.item := by
    change ∀ item ∈ invitation.item, ¬ HasType .kLogNode item.key
    decide +kernel
  have disciplined : Run.Guarded nodesStep Disciplined freshPair inviteAndFollow := by
    refine Run.guarded_cons.mpr ⟨⟨offLog, by decide, .inr ⟨rfl, rfl, fun uses => by contradiction⟩⟩, ?_⟩
    refine Run.guarded_cons.mpr ⟨trivial, ?_⟩
    refine Run.guarded_cons.mpr ⟨⟨by decide +kernel, fun record _ => .inr ⟨rfl, rfl, fun uses => ?_⟩⟩, ?_⟩
    · exact absurd uses (by decide +kernel)
    exact fun i label here => by simp at here
  have prepares : (((inviteRequest.read (freshPair true).table inviteEnv).run 1).1.toOption.bind (·.trans)).isSome := by
    decide +kernel
  have requested : Run.Guarded nodesStep Requested freshPair inviteAndFollow := by
    refine Run.guarded_cons.mpr ⟨?_, Run.guarded_cons.mpr ⟨trivial, Run.guarded_cons.mpr ⟨trivial, ?_⟩⟩⟩
    · obtain ⟨transaction, made⟩ := Option.isSome_iff_exists.mp prepares
      have isInvitation : transaction = invitation := by rw [invitation, made, Option.getD_some]
      cases ran : (inviteRequest.read (freshPair true).table inviteEnv).run 1 with
      | mk result counter =>
        rw [ran] at made
        cases result with
        | error e => contradiction
        | ok prepared => exact ⟨inviteRequest, inviteEnv, 1, counter, prepared, ran, isInvitation ▸ made⟩
    · exact fun i label here => by simp at here
  exact tables_keep_everywhere led_freshPair (fun _ => ⟨rfl, rfl⟩) disciplined
    (fun _ => representsAll_putFences.invariant) requested 3 false

end Identt.Hrpc
