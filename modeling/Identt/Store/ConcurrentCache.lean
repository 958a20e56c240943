import Identt.Store.CacheRuns
import Identt.Store.ConcurrentCommit

/-! # The cache behind commits that overlap

`AddToCache` comes after the writes of its call and takes the lock of the cache once for each item. Calls
that overlap can so reach the cache in another order than the table.
-/

namespace Identt

open Store StoreTrans StoreCache

/-- The atomic steps of calls on a node that looks up in its cache. -/
inductive CacheStep where
  | commit (step : CommitStep)
  | cacheItem (call item : ℕ)
deriving DecidableEq, Repr

/-- The association that an item puts, if it is one of their table. -/
def assocOf (item : TransItemT) : Option LocalAssocT :=
  if HasType .kLocalAssoc item.key then LocalAssocT.parse item.value else none

def assocs (items : List TransItemT) : List LocalAssocT := items.filterMap assocOf

namespace CacheStep

def call : CacheStep → ℕ
  | .commit step => step.call
  | .cacheItem i _ => i

/-- What a call does whose transaction has `count` items. -/
def program (count : ℕ → ℕ) (i : ℕ) : List CacheStep :=
  (CommitStep.program i).map .commit ++ (List.range (count i)).map (.cacheItem i)

def ofCall (i : ℕ) (schedule : List CacheStep) : List CacheStep := schedule.filter fun step => step.call = i

/-- Every call below `n` runs to its end, in its order, and no other call runs. -/
def Interleaving (count : ℕ → ℕ) (n : ℕ) (schedule : List CacheStep) : Prop :=
  ∀ i, ofCall i schedule = if i < n then program count i else []

/-- The steps that write the log and the data. -/
def commits (schedule : List CacheStep) : List CommitStep :=
  schedule.filterMap fun
    | .commit step => some step
    | .cacheItem _ _ => none

/-- The items in the order in which the data is written. -/
def written (trans : ℕ → TransactionT) (schedule : List CacheStep) : List TransItemT :=
  (CommitStep.writeOrder (commits schedule)).flatMap fun i => (trans i).item

/-- The items in the order in which the cache takes them. -/
def cached (trans : ℕ → TransactionT) (schedule : List CacheStep) : List TransItemT :=
  schedule.filterMap fun
    | .commit _ => none
    | .cacheItem i j => (trans i).item[j]?

theorem commits_append (first second : List CacheStep) : commits (first ++ second) = commits first ++ commits second :=
  List.filterMap_append ..

theorem cached_append (trans : ℕ → TransactionT) (first second : List CacheStep) :
    cached trans (first ++ second) = cached trans first ++ cached trans second := List.filterMap_append ..

theorem ofCall_commits (i : ℕ) (schedule : List CacheStep) :
    CommitStep.ofCall i (commits schedule) = commits (ofCall i schedule) := by
  induction schedule with
  | nil => rfl
  | cons step rest ih =>
    have split (tail : List CacheStep) : commits (step :: tail) = commits [step] ++ commits tail :=
      commits_append [step] tail
    rw [split, CommitStep.ofCall, List.filter_append, ofCall, List.filter_cons]
    have rest' : List.filter (fun step => decide (step.call = i)) (commits rest) = commits (ofCall i rest) := ih
    rw [rest']
    cases step with
    | commit step =>
      by_cases own : step.call = i
      · simp [commits, call, own, ofCall]
      · simp [commits, call, own, ofCall]
    | cacheItem j item =>
      by_cases own : j = i
      · simp [commits, call, own, ofCall]
      · simp [commits, call, own, ofCall]

theorem commits_program (count : ℕ → ℕ) (i : ℕ) : commits (program count i) = CommitStep.program i := by
  have none : commits ((List.range (count i)).map (.cacheItem i)) = [] := by simp [commits, List.filterMap_map]
  rw [program, commits_append, none, List.append_nil]
  rfl

theorem Interleaving.commits {count : ℕ → ℕ} {n : ℕ} {schedule : List CacheStep}
    (valid : Interleaving count n schedule) : CommitStep.Interleaving n (commits schedule) := by
  intro i
  rw [ofCall_commits, valid i]
  split
  · exact commits_program count i
  · rfl

theorem Interleaving.mem_iff {count : ℕ → ℕ} {n : ℕ} {schedule : List CacheStep} (valid : Interleaving count n schedule)
    {i j : ℕ} : .cacheItem i j ∈ schedule ↔ i < n ∧ j < count i := by
  have here : CacheStep.cacheItem i j ∈ schedule ↔ .cacheItem i j ∈ ofCall i schedule := by simp [ofCall, call]
  rw [here, valid i]
  split
  · next inside => simp [program, inside]
  · next outside => simp [outside]

end CacheStep

/-- One atomic step of a call; the cache takes the next item of the transaction. -/
def Commits.cacheStep (now : ℕ → UInt64) (s : Commits) : CacheStep → Commits
  | .commit step => s.step now step
  | .cacheItem i j =>
    if s.node.lookupUsesLocal then
      match (s.trans i).item[j]? with
      | none => s
      | some item => { s with node := { s.node with dbcache := (addToCache s.node.dbcache [item]).2 } }
    else s

/-- An item that the cache can take, and that puts an association if it is of their table. -/
structure AssocPut (item : TransItemT) : Prop where
  typed : Typed item
  cachable : Cachable [item]
  puts : HasType .kLocalAssoc item.key → ∃ record : LocalAssocT, record.id ≠ 0 ∧
    item = ⟨encodePrimaryKey .kLocalAssoc record.id, .localAssoc record, false⟩

/-- All items of the calls. -/
def Commits.items (s : Commits) (n : ℕ) : List TransItemT := (List.range n).flatMap fun i => (s.trans i).item

/-- What the steps taken so far have done. -/
structure CacheRan (start : Commits) (past : List CacheStep) (s : Commits) : Prop where
  ran : Ran start (CacheStep.commits past) s
  uses : s.node.lookupUsesLocal = start.node.lookupUsesLocal
  cached : s.node.dbcache = follow start.node.dbcache (CacheStep.cached start.trans past)

section Steps

variable {now : ℕ → UInt64} {start s : Commits} {past : List CacheStep}

/-- The writes of a call leave the cache alone. -/
theorem Commits.step_cache (now : ℕ → UInt64) (s : Commits) (step : CommitStep) :
    (s.step now step).node.dbcache = s.node.dbcache ∧
      (s.step now step).node.lookupUsesLocal = s.node.lookupUsesLocal := by
  cases step with
  | getNext i => exact ⟨rfl, rfl⟩
  | logPut i => simp only [Commits.step, SharedTable.putLog]; split <;> exact ⟨rfl, rfl⟩
  | dataWrite i =>
    simp only [Commits.step, commitData]
    split
    · exact ⟨rfl, rfl⟩
    · exact ⟨rfl, rfl⟩

theorem CacheRan.commit (cacheRan : CacheRan start past s) {step : CommitStep}
    (separate : start.node.logdb.isSome ∨ ∀ i, ItemsOffLog (start.trans i).item)
    (started : CommitStep.Started (CacheStep.commits past ++ [step])) :
    CacheRan start (past ++ [.commit step]) (s.cacheStep now (.commit step)) := by
  obtain ⟨cache, uses⟩ := s.step_cache now step
  have added : CacheStep.commits (past ++ [.commit step]) = CacheStep.commits past ++ [step] :=
    CacheStep.commits_append ..
  refine ⟨?_, uses.trans cacheRan.uses, ?_⟩
  · rw [added]
    cases step with
    | getNext i => exact cacheRan.ran.getNext started
    | logPut i => exact @Ran.logPut now _ _ _ _ cacheRan.ran started
    | dataWrite i => exact cacheRan.ran.dataWrite (separate.imp_right fun off => off i)
  · have none : CacheStep.cached start.trans [.commit step] = [] := rfl
    rw [CacheStep.cached_append, none, List.append_nil]
    exact cache.trans cacheRan.cached

theorem CacheRan.cacheItem (cacheRan : CacheRan start past s) {i j : ℕ}
    (uses : start.node.lookupUsesLocal = true)
    (puts : ∀ item, (start.trans i).item[j]? = some item → AssocPut item) :
    CacheRan start (past ++ [.cacheItem i j]) (s.cacheStep now (.cacheItem i j)) := by
  have same : CacheStep.commits (past ++ [.cacheItem i j]) = CacheStep.commits past := by
    simp [CacheStep.commits]
  have taken : CacheStep.cached start.trans [.cacheItem i j] = ((start.trans i).item[j]?).toList := by
    cases here : (start.trans i).item[j]? <;> simp [CacheStep.cached, here]
  rw [Commits.cacheStep, cacheRan.uses, if_pos uses, cacheRan.ran.item]
  cases here : (start.trans i).item[j]? with
  | none =>
    refine ⟨by rw [same]; exact cacheRan.ran, cacheRan.uses, ?_⟩
    rw [CacheStep.cached_append, taken, here, Option.toList_none, List.append_nil]
    exact cacheRan.cached
  | some item =>
    have put := puts item here
    have added : (addToCache s.node.dbcache [item]).2 = followItem s.node.dbcache item := by
      rw [addToCache, addItem_eq put.typed put.cachable]
      rfl
    refine ⟨?_, cacheRan.uses, ?_⟩
    · rw [same]
      obtain ⟨build, counter, items, data, id, logged⟩ := cacheRan.ran
      exact ⟨build, counter, items, data, id, logged⟩
    · rw [CacheStep.cached_append, taken, here, Option.toList_some, follow_append, ← cacheRan.cached]
      exact added

end Steps

end Identt
