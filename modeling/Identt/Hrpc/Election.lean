import Identt.Hrpc.RemoteKeeper
import Mathlib.Data.Finset.Max
import Mathlib.Data.List.Lex
import Mathlib.Data.Prod.Lex
import Mathlib.Order.Bounds.Basic

/-! # Agreement on the new master

`MasterUpdate` takes the largest log counter, and of equal ones the largest name, over the node itself
and the nodes heard of since the cutoff. The order in which the map is read does not matter; so nodes
that know each other's counters elect the same one.
-/

namespace Identt.Hrpc

/-- By log counter and then by name. -/
def rank (node : Bytes × ℕ) : ℕ ×ₗ Bytes := toLex (node.2, node.1)

theorem rank_injective : Function.Injective rank := by
  rintro ⟨name, counter⟩ ⟨name', counter'⟩ same
  cases toLex.injective same
  rfl

theorem rank_lt_iff {left right : Bytes × ℕ} :
    rank left < rank right ↔ left.2 < right.2 ∨ (left.2 = right.2 ∧ left.1 < right.1) := Prod.Lex.toLex_lt_toLex

/-- The candidate that the loop of `MasterUpdate` ends with. -/
def best (cutoff : UInt64) (st : SharedTable) : Bytes × ℕ :=
  st.remotes.foldl (candidate cutoff) (st.thisurl, st.logcounter)

/-- The `newmaster` of `MasterUpdate`. -/
def elect (cutoff : UInt64) (st : SharedTable) : Bytes := (best cutoff st).1

theorem masterUpdate_isMaster (cutoff : UInt64) (tries : List Bool) {st : SharedTable} (slave : st.isMaster = false) :
    (masterUpdate cutoff tries st).isMaster = true ↔ elect cutoff st = st.thisurl := by
  change (if elect cutoff st = st.thisurl then { st with lastslave := [], isMaster := true }
    else if (tries.take 10).any id then { st with master := elect cutoff st } else st).isMaster = true ↔ _
  split_ifs with mine registers
  · simp [mine]
  · simp [mine, slave]
  · simp [mine, slave]

/-- A round of the loop keeps the candidate or takes the remote, whichever is larger, if the remote is
fresh and not the candidate itself. -/
theorem candidate_eq {cutoff : UInt64} {newmaster : Bytes} {maxLogcounter : ℕ} {remote : Bytes × ℕ × UInt64}
    (other : remote.1 ≠ newmaster) (fresh : cutoff ≤ remote.2.2) :
    candidate cutoff (newmaster, maxLogcounter) remote =
      if rank (newmaster, maxLogcounter) < rank (remote.1, remote.2.1) then (remote.1, remote.2.1)
      else (newmaster, maxLogcounter) := by
  obtain ⟨name, logcounter, updatedAt⟩ := remote
  simp only [candidate, rank_lt_iff, UInt64.not_lt.mpr fresh, false_or] at *
  rcases Nat.lt_trichotomy logcounter maxLogcounter with lower | rfl | higher
  · rw [if_pos (.inl lower), if_neg (by omega)]
  · rw [if_neg (by simp [other])]
  · rw [if_neg (by simp [other]; omega), if_pos (.inl higher), if_pos (.inl higher)]

theorem candidate_of_stale {cutoff : UInt64} (node : Bytes × ℕ) {remote : Bytes × ℕ × UInt64}
    (stale : remote.2.2 < cutoff) : candidate cutoff node remote = node := by
  simp [candidate, stale]

theorem candidate_of_same {cutoff : UInt64} {node : Bytes × ℕ} {remote : Bytes × ℕ × UInt64}
    (same : remote.1 = node.1) : candidate cutoff node remote = node := by
  simp [candidate, same]

/-- What the loop considers: the node itself, and the remotes heard of since the cutoff. -/
def Considered (cutoff : UInt64) (start : Bytes × ℕ) (remotes : List (Bytes × ℕ × UInt64)) : Set (Bytes × ℕ) :=
  insert start {node | ∃ remote ∈ remotes, cutoff ≤ remote.2.2 ∧ node = (remote.1, remote.2.1)}

/-- One more remote is considered if it was heard of since the cutoff. -/
theorem mem_considered_concat {cutoff : UInt64} {start node : Bytes × ℕ} {remotes : List (Bytes × ℕ × UInt64)}
    {remote : Bytes × ℕ × UInt64} : node ∈ Considered cutoff start (remotes ++ [remote]) ↔
      node ∈ Considered cutoff start remotes ∨ cutoff ≤ remote.2.2 ∧ node = (remote.1, remote.2.1) := by
  constructor
  · rintro (isStart | ⟨earlier, inRemotes, fresh, rfl⟩)
    · exact .inl (.inl isStart)
    · rcases List.mem_append.mp inRemotes with before | last
      · exact .inl (.inr ⟨earlier, before, fresh, rfl⟩)
      · rw [List.mem_singleton.mp last] at fresh ⊢
        exact .inr ⟨fresh, rfl⟩
  · rintro ((isStart | ⟨earlier, inRemotes, fresh, rfl⟩) | ⟨fresh, rfl⟩)
    · exact .inl isStart
    · exact .inr ⟨earlier, List.mem_append_left _ inRemotes, fresh, rfl⟩
    · exact .inr ⟨remote, List.mem_concat_self, fresh, rfl⟩

/-- The loop ends with the largest of what it considers, whatever the order of the map, as long as the map
has nothing newer of the node itself than the node. -/
theorem foldl_candidate {cutoff : UInt64} {start : Bytes × ℕ} {remotes : List (Bytes × ℕ × UInt64)}
    (nodup : (remotes.map Prod.fst).Nodup) (own : ∀ remote ∈ remotes, remote.1 = start.1 → remote.2.1 ≤ start.2) :
    IsGreatest (rank '' Considered cutoff start remotes) (rank (remotes.foldl (candidate cutoff) start)) ∧
      remotes.foldl (candidate cutoff) start ∈ Considered cutoff start remotes := by
  suffices member : remotes.foldl (candidate cutoff) start ∈ Considered cutoff start remotes ∧
      ∀ node ∈ Considered cutoff start remotes, rank node ≤ rank (remotes.foldl (candidate cutoff) start) from
    ⟨⟨Set.mem_image_of_mem rank member.1, Set.forall_mem_image.mpr member.2⟩, member.1⟩
  induction remotes using List.reverseRecOn with
  | nil => exact ⟨.inl rfl, fun node considered => by simp_all [Considered]⟩
  | append_singleton remotes remote ih =>
    rw [List.map_append, List.nodup_append] at nodup
    have absent : remote.1 ∉ remotes.map Prod.fst := fun member =>
      nodup.2.2 remote.1 member remote.1 (by simp) rfl
    obtain ⟨member, greatest⟩ := ih nodup.1 fun earlier inRemotes =>
      own earlier (List.mem_append_left _ inRemotes)
    rw [List.foldl_append, List.foldl_cons, List.foldl_nil]
    simp only [mem_considered_concat]
    generalize remotes.foldl (candidate cutoff) start = node at member greatest ⊢
    by_cases stale : remote.2.2 < cutoff
    · rw [candidate_of_stale node stale]
      refine ⟨.inl member, fun other considered => ?_⟩
      rcases considered with earlier | ⟨fresh, _⟩
      · exact greatest other earlier
      · exact (UInt64.not_lt.mpr fresh stale).elim
    have fresh := UInt64.not_lt.mp stale
    by_cases same : remote.1 = node.1
    · -- the map has one entry for each name, so this one is the node's own
      have isStart : node = start := by
        refine member.resolve_right ?_
        rintro ⟨earlier, inRemotes, _, rfl⟩
        exact absent (same ▸ List.mem_map_of_mem inRemotes)
      rw [candidate_of_same same]
      refine ⟨.inl member, fun other considered => ?_⟩
      rcases considered with earlier | ⟨_, rfl⟩
      · exact greatest other earlier
      · rw [isStart] at same ⊢
        have notAbove := own remote (by simp) same
        refine not_lt.mp fun above => ?_
        rcases rank_lt_iff.mp above with more | ⟨_, later⟩
        · exact absurd more (Nat.not_lt.mpr notAbove)
        · exact lt_irrefl start.1 (same ▸ later)
    · rw [candidate_eq same fresh]
      split
      · next above =>
        refine ⟨.inr ⟨fresh, rfl⟩, fun other considered => ?_⟩
        rcases considered with earlier | ⟨_, rfl⟩
        · exact (greatest other earlier).trans above.le
        · exact le_rfl
      · next notAbove =>
        refine ⟨.inl member, fun other considered => ?_⟩
        rcases considered with earlier | ⟨_, rfl⟩
        · exact greatest other earlier
        · exact not_lt.mp notAbove

/-- Another node was heard of since the cutoff that is ahead. -/
def Outranked (cutoff : UInt64) (st : SharedTable) : Prop :=
  ∃ remote ∈ st.remotes, cutoff ≤ remote.2.2 ∧ rank (st.thisurl, st.logcounter) < rank (remote.1, remote.2.1)

/-- A node elects itself exactly if it has not heard of any other one that is ahead. -/
theorem elect_self_iff {cutoff : UInt64} {st : SharedTable} (nodup : (st.remotes.map Prod.fst).Nodup)
    (own : ∀ remote ∈ st.remotes, remote.1 = st.thisurl → remote.2.1 ≤ st.logcounter) :
    elect cutoff st = st.thisurl ↔ ¬ Outranked cutoff st := by
  obtain ⟨⟨_, upper⟩, member⟩ := @foldl_candidate cutoff (st.thisurl, st.logcounter) st.remotes nodup own
  constructor
  · rintro mine ⟨remote, inRemotes, fresh, ahead⟩
    have below : rank (remote.1, remote.2.1) ≤ rank (best cutoff st) :=
      upper ⟨_, .inr ⟨remote, inRemotes, fresh, rfl⟩, rfl⟩
    rcases member with isStart | ⟨elected, inRemotes', _, isElected⟩
    · exact absurd (ahead.trans_le below) (by rw [best, isStart]; exact lt_irrefl _)
    · -- what it elects under its own name is not ahead of it
      have isBest : best cutoff st = (elected.1, elected.2.1) := isElected
      have notAbove := own elected inRemotes' ((congrArg Prod.fst isBest).symm.trans mine)
      have name : elected.1 = st.thisurl := (congrArg Prod.fst isBest).symm.trans mine
      have less := ahead.trans_le below
      rw [isBest, name, rank_lt_iff] at less
      rcases less with more | ⟨_, later⟩
      · exact absurd more (Nat.not_lt.mpr notAbove)
      · exact lt_irrefl _ later
  · intro first
    rcases member with isStart | ⟨elected, inRemotes, fresh, isElected⟩
    · rw [elect, best, isStart]
    · have above : rank (st.thisurl, st.logcounter) ≤ rank (elected.1, elected.2.1) := by
        rw [← isElected]
        exact upper ⟨_, .inl rfl, rfl⟩
      rcases above.lt_or_eq with ahead | same
      · exact (first ⟨elected, inRemotes, fresh, ahead⟩).elim
      · rw [elect, best, isElected, ← rank_injective same]

/-- Slaves that know each other: what each one's map holds, and may not hold, for an election. -/
structure Informed (live : Finset Bytes) (node : Bytes → SharedTable) (cutoff : Bytes → UInt64) : Prop where
  named : ∀ a ∈ live, (node a).thisurl = a
  slave : ∀ a ∈ live, (node a).isMaster = false
  /-- The map has one entry for each address. -/
  nodup : ∀ a ∈ live, ((node a).remotes.map Prod.fst).Nodup
  hears : ∀ a ∈ live, ∀ b ∈ live, b ≠ a →
    ∃ updatedAt, cutoff a ≤ updatedAt ∧ (b, (node b).logcounter, updatedAt) ∈ (node a).remotes
  outside : ∀ a ∈ live, ∀ remote ∈ (node a).remotes, remote.1 ∉ live → remote.2.2 < cutoff a
  own : ∀ a ∈ live, ∀ remote ∈ (node a).remotes, remote.1 = a → remote.2.1 ≤ (node a).logcounter

/-- Where a node stands in the election. -/
def standing (node : Bytes → SharedTable) (a : Bytes) : ℕ ×ₗ Bytes := rank (a, (node a).logcounter)

section Informed

variable {live : Finset Bytes} {node : Bytes → SharedTable} {cutoff : Bytes → UInt64}

/-- Whatever a live slave considers, no live slave ahead of it is missing and nothing beats them all. -/
theorem Informed.considered (informed : Informed live node cutoff) {a : Bytes} (alive : a ∈ live)
    {other : Bytes × ℕ}
    (considered : other ∈ Considered (cutoff a) ((node a).thisurl, (node a).logcounter) (node a).remotes) :
    other.1 ∈ live ∧ rank other ≤ standing node other.1 := by
  rcases considered with rfl | ⟨remote, inRemotes, fresh, rfl⟩
  · rw [informed.named a alive]
    exact ⟨alive, le_rfl⟩
  · have member : remote.1 ∈ live := by
      by_contra outside
      exact UInt64.not_lt.mpr fresh (informed.outside a alive remote inRemotes outside)
    refine ⟨member, ?_⟩
    by_cases mine : remote.1 = a
    · have notAbove := informed.own a alive remote inRemotes mine
      rw [standing, mine]
      exact Prod.Lex.toLex_mono ⟨notAbove, le_rfl⟩
    · obtain ⟨updatedAt, _, heard⟩ := informed.hears a alive remote.1 member mine
      have same := (SharedMap.lookup_of_mem (informed.nodup a alive) inRemotes).symm.trans
        (SharedMap.lookup_of_mem (informed.nodup a alive) heard)
      rw [standing, Option.some.inj same]

/-- A live slave elects the largest of them. -/
theorem Informed.elect_eq (informed : Informed live node cutoff) {a winner : Bytes} (alive : a ∈ live)
    (wins : winner ∈ live) (greatest : ∀ b ∈ live, standing node b ≤ standing node winner) :
    elect (cutoff a) (node a) = winner := by
  have own (remote : Bytes × ℕ × UInt64) (inRemotes : remote ∈ (node a).remotes)
      (mine : remote.1 = (node a).thisurl) : remote.2.1 ≤ (node a).logcounter :=
    informed.own a alive remote inRemotes (mine.trans (informed.named a alive))
  obtain ⟨⟨_, upper⟩, member⟩ := @foldl_candidate (cutoff a) ((node a).thisurl, (node a).logcounter) _
    (informed.nodup a alive) own
  have above : standing node winner ≤ rank (best (cutoff a) (node a)) := by
    refine upper ⟨(winner, (node winner).logcounter), ?_, rfl⟩
    by_cases mine : winner = a
    · subst mine
      exact .inl (by rw [informed.named winner alive])
    · obtain ⟨updatedAt, fresh, heard⟩ := informed.hears a alive winner wins mine
      exact .inr ⟨_, heard, fresh, rfl⟩
  obtain ⟨electedLive, below⟩ := informed.considered alive member
  have same := le_antisymm above (below.trans (greatest _ electedLive))
  exact congrArg Prod.fst (rank_injective same).symm

/-- The same slaves with the maps read in another order. -/
theorem Informed.reorder (informed : Informed live node cutoff) (order : Bytes → List (Bytes × ℕ × UInt64))
    (reads : ∀ a ∈ live, (order a).Perm (node a).remotes) :
    Informed live (fun a => { node a with remotes := order a }) cutoff where
  named := informed.named
  slave := informed.slave
  nodup a alive := ((reads a alive).map Prod.fst).nodup_iff.mpr (informed.nodup a alive)
  hears a alive b member other := by
    obtain ⟨updatedAt, fresh, heard⟩ := informed.hears a alive b member other
    exact ⟨updatedAt, fresh, (reads a alive).mem_iff.mpr heard⟩
  outside a alive remote inRemotes :=
    informed.outside a alive remote ((reads a alive).mem_iff.mp inRemotes)
  own a alive remote inRemotes := informed.own a alive remote ((reads a alive).mem_iff.mp inRemotes)

/-- Slaves that know each other elect the largest of them, in whatever order each of them reads its map, and
that slave and no other becomes the master. -/
theorem informed_slaves_agree (informed : Informed live node cutoff) (some : live.Nonempty)
    (order : Bytes → List (Bytes × ℕ × UInt64)) (reads : ∀ a ∈ live, (order a).Perm (node a).remotes) :
    ∃ winner ∈ live, (∀ b ∈ live, standing node b ≤ standing node winner) ∧
      ∀ a ∈ live, elect (cutoff a) { node a with remotes := order a } = winner ∧
        ∀ tries, (masterUpdate (cutoff a) tries { node a with remotes := order a }).isMaster = true ↔ a = winner := by
  obtain ⟨winner, wins, greatest⟩ := live.exists_max_image (standing node) some
  refine ⟨winner, wins, greatest, fun a alive => ?_⟩
  have elected : elect (cutoff a) { node a with remotes := order a } = winner :=
    (informed.reorder order reads).elect_eq alive wins greatest
  have slave : ({ node a with remotes := order a } : SharedTable).isMaster = false := informed.slave a alive
  refine ⟨elected, fun tries => (masterUpdate_isMaster (cutoff a) tries slave).trans ?_⟩
  rw [elected]
  change winner = (node a).thisurl ↔ a = winner
  rw [informed.named a alive, eq_comm]

/-- Two slaves that heard of each other; the second one is ahead. -/
def twoSlaves (a : Bytes) : SharedTable :=
  if a = ascii "a" then
    { thisurl := ascii "a", logcounter := 3, remotes := [(ascii "x", 9, 1), (ascii "b", 5, 10)] }
  else { thisurl := ascii "b", logcounter := 5, remotes := [(ascii "a", 3, 10), (ascii "b", 4, 2)] }

theorem informed_twoSlaves : Informed {ascii "a", ascii "b"} twoSlaves fun _ => 2 where
  named := by decide
  slave := by decide
  nodup := by decide
  hears a alive b member other := ⟨10, by decide, by revert a b; decide⟩
  outside := by decide
  own := by decide

theorem informed_slaves_agree_twoSlaves :
    ∃ winner ∈ ({ascii "a", ascii "b"} : Finset Bytes),
      (∀ b ∈ ({ascii "a", ascii "b"} : Finset Bytes), standing twoSlaves b ≤ standing twoSlaves winner) ∧
      ∀ a ∈ ({ascii "a", ascii "b"} : Finset Bytes),
        elect 2 { twoSlaves a with remotes := (twoSlaves a).remotes.reverse } = winner ∧
        ∀ tries, (masterUpdate 2 tries
          { twoSlaves a with remotes := (twoSlaves a).remotes.reverse }).isMaster = true ↔ a = winner :=
  informed_slaves_agree informed_twoSlaves ⟨ascii "a", by decide⟩ (fun a => (twoSlaves a).remotes.reverse)
    fun a _ => List.reverse_perm _

end Informed

end Identt.Hrpc
