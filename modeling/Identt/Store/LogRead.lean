import Identt.Store.LastId
import Identt.Store.LogView

/-! # Reading the log in sequence

An iterator on the log visits the transactions in the order of their identifiers, if those fit a
machine word. `ReadLog` hands them on from the one behind the caller's last, as long as no identifier
is missing.
-/

namespace Identt

open Store StoreTrans

/-- The transactions behind an identifier, in the order of their identifiers. -/
def logBehind (st : SharedTable) (lastid : ℕ) : List TransactionT :=
  (List.range' (lastid + 1) (st.logcounter - lastid)).filterMap (logEntry st)

/-- What the iterator of `ReadLog` visits. -/
def logTail (st : SharedTable) (lastid : ℕ) : List (Bytes × Stored) :=
  (st.logStore.seek (logKey lastid)).takeWhile fun entry => (encodeKeyType .kLogNode).isPrefixOf entry.1

/-- The identifiers of the log's transactions, from `first` to the counter without a gap. -/
structure GapFree (st : SharedTable) (first : ℕ) : Prop where
  log : LogOf st
  positive : 1 ≤ first
  bound : first ≤ st.logcounter + 1
  entries : ∀ id, 1 ≤ id → ((logEntry st id).isSome ↔ first ≤ id ∧ id ≤ st.logcounter)

/-- The answer holds, behind what the request held, the transactions that follow the caller's last one, as
many as the limit allows, and says where they end, how many they are and where the log ends. -/
def ReadsExactly (st : SharedTable) (request : TransListT) (result : Except Exn TransListT) : Prop :=
  ∃ answer listed, result = .ok answer ∧ answer.trans = request.trans ++ listed ∧
    listed.length = min request.limit (st.logcounter - request.lastid) ∧
    listed.map some = (List.range' (request.lastid + 1) listed.length).map (logEntry st) ∧
    answer.lastid = request.lastid + listed.length ∧ answer.limit = listed.length ∧
    answer.currid = st.logcounter

section Tail

variable {st : SharedTable}

theorem logKey_lt_iff {m n : ℕ} (mWord : m < 2 ^ 64) (nWord : n < 2 ^ 64) : logKey m < logKey n ↔ m < n :=
  encodePrimaryKey_lt_iff .kLogNode mWord nWord

theorem mem_logBehind (log : LogOf st) {lastid : ℕ} {record : TransactionT} :
    record ∈ logBehind st lastid ↔ lastid < record.id ∧ logEntry st record.id = some record := by
  rw [logBehind, List.mem_filterMap]
  constructor
  · rintro ⟨id, inRange, has⟩
    obtain ⟨above, _⟩ := List.mem_range'_1.mp inRange
    obtain ⟨rfl, _⟩ := log.entry (by omega) has
    exact ⟨above, has⟩
  · rintro ⟨above, has⟩
    have bound := (log.entry (by omega) has).2
    exact ⟨record.id, List.mem_range'_1.mpr ⟨above, by omega⟩, has⟩

theorem logBehind_sorted (log : LogOf st) (lastid : ℕ) :
    (logBehind st lastid).Pairwise fun a b => a.id < b.id := by
  have increasing : (List.range' (lastid + 1) (st.logcounter - lastid)).Pairwise (· < ·) := List.pairwise_lt_range' ..
  refine List.Pairwise.filterMap _ (fun _ _ less => less) (increasing.imp_of_mem fun {m n} inM inN less => ?_)
  intro left hasLeft right hasRight
  have aboveM := (List.mem_range'_1.mp inM).1
  have aboveN := (List.mem_range'_1.mp inN).1
  rw [(log.entry (by omega) hasLeft).1, (log.entry (by omega) hasRight).1]
  exact less

theorem mem_logTail {lastid : ℕ} {entry : Bytes × Stored} :
    entry ∈ logTail st lastid ↔
      st.logStore.get? entry.1 = some entry.2 ∧ HasType .kLogNode entry.1 ∧ ¬ entry.1 < logKey lastid := by
  rw [logTail, OrderedMap.mem_seek_takeWhile (hasType_logKey lastid), and_comm (a := ¬ _)]
  rfl

/-- The iterator visits what is stored under the caller's last identifier, and then the transactions behind it. -/
theorem logTail_eq (log : LogOf st) (word : st.logcounter < 2 ^ 64) {lastid : ℕ} (bound : lastid ≤ st.logcounter) :
    logTail st lastid = (st.logStore.get? (logKey lastid)).toList.map (fun value => (logKey lastid, value)) ++
      (logBehind st lastid).map fun record => (logKey record.id, .log record) := by
  have small {record : TransactionT} (member : record ∈ logBehind st lastid) : record.id < 2 ^ 64 := by
    obtain ⟨above, has⟩ := (mem_logBehind log).mp member
    have below := (log.entry (by omega) has).2
    omega
  refine eq_of_sorted ((st.logStore.seek_sorted _).sublist (List.takeWhile_sublist _)) ?_ fun entry => ?_
  · refine List.pairwise_append.mpr ⟨?_, ?_, ?_⟩
    · cases st.logStore.get? (logKey lastid) <;> simp
    · rw [List.pairwise_map]
      exact (logBehind_sorted log lastid).imp_of_mem fun inLeft inRight less =>
        (logKey_lt_iff (small inLeft) (small inRight)).mpr less
    · intro first inFirst later inLater
      obtain ⟨value, _, rfl⟩ := List.mem_map.mp inFirst
      obtain ⟨record, inAfter, rfl⟩ := List.mem_map.mp inLater
      exact (logKey_lt_iff (by omega) (small inAfter)).mpr ((mem_logBehind log).mp inAfter).1
  · obtain ⟨key, value⟩ := entry
    rw [mem_logTail, List.mem_append, List.mem_map, List.mem_map]
    constructor
    · rintro ⟨has, ofLog, notBelow⟩
      rcases log key value ofLog has with ⟨rfl, rfl⟩ | ⟨record, rfl, rfl, positive, inLog⟩
      · left
        rw [logKey_lt_iff (by omega) (by omega)] at notBelow
        obtain rfl : lastid = 0 := by omega
        exact ⟨_, by simp [has], rfl⟩
      · rw [logKey_lt_iff (by omega) (by omega)] at notBelow
        rcases Nat.lt_or_eq_of_le (not_lt.mp notBelow) with above | rfl
        · exact .inr ⟨record, (mem_logBehind log).mpr ⟨above, (logEntry_eq_some_iff log positive).mpr has⟩, rfl⟩
        · exact .inl ⟨_, by simp [has], rfl⟩
    · rintro (⟨stored, has, same⟩ | ⟨record, inAfter, same⟩)
      · cases same
        exact ⟨by simpa using has, hasType_logKey _, lt_irrefl _⟩
      · cases same
        obtain ⟨above, has⟩ := (mem_logBehind log).mp inAfter
        refine ⟨(logEntry_eq_some_iff log (by omega)).mp has, hasType_logKey _, ?_⟩
        rw [logKey_lt_iff (small inAfter) (by omega)]
        omega

end Tail

section Loop

/-- A record with the caller's last identifier is skipped. -/
theorem readLogLoop_skip {counter : ℕ} {tlist : TransListT} {key : Bytes} {value : Stored} {record : TransactionT}
    (parsed : TransactionT.parse value = some record) (same : record.id = tlist.lastid) (rest : List (Bytes × Stored)) :
    readLogLoop counter tlist ((key, value) :: rest) = readLogLoop counter tlist rest := by
  simp only [readLogLoop, parsed, same, if_true]

/-- The loop stops at a gap. -/
theorem readLogLoop_gap {counter : ℕ} {tlist : TransListT} {listed : List TransactionT}
    (gap : ∀ record ∈ listed, tlist.lastid + 1 < record.id) :
    readLogLoop counter tlist (listed.map fun record => (logKey record.id, .log record)) = (counter, tlist) := by
  cases listed with
  | nil => rfl
  | cons record rest =>
    have above := gap record (List.mem_cons_self ..)
    simp only [List.map_cons, readLogLoop, TransactionT.parse]
    rw [if_neg (by omega), if_pos (by omega)]

/-- The loop takes transactions in sequence, until it has taken one more than the limit says. -/
theorem readLogLoop_run {listed : List TransactionT} {counter : ℕ} {tlist : TransListT}
    (run : listed.map TransactionT.id = List.range' (tlist.lastid + 1) listed.length) (below : counter ≤ tlist.limit) :
    readLogLoop counter tlist (listed.map fun record => (logKey record.id, .log record)) =
      (counter + min listed.length (tlist.limit + 1 - counter),
        { tlist with
          lastid := tlist.lastid + min listed.length (tlist.limit + 1 - counter)
          trans := tlist.trans ++ listed.take (tlist.limit + 1 - counter) }) := by
  induction listed generalizing counter tlist with
  | nil => simp [readLogLoop]
  | cons record rest ih =>
    rw [List.map_cons, List.length_cons, List.range'_succ, List.cons.injEq] at run
    obtain ⟨isNext, runRest⟩ := run
    simp only [List.map_cons, readLogLoop, TransactionT.parse]
    rw [if_neg (by omega), if_neg (by omega)]
    by_cases full : counter + 1 > tlist.limit
    · have one : tlist.limit + 1 - counter = 1 := by omega
      rw [if_pos full, one, isNext]
      simp
    · obtain ⟨more, here⟩ : ∃ more, tlist.limit + 1 - counter = more + 1 := ⟨tlist.limit - counter, by omega⟩
      have within : counter + 1 ≤ tlist.limit := by omega
      rw [if_neg full]
      refine (@ih _ { tlist with lastid := record.id, trans := tlist.trans ++ [record] } ?_ within).trans ?_
      · rw [isNext]
        exact runRest
      rw [here]
      simp only [List.length_cons, List.take_succ_cons, List.append_assoc, List.singleton_append,
        show tlist.limit + 1 - (counter + 1) = more by omega, Nat.add_min_add_right, isNext]
      congr 1
      · omega
      · congr 1
        omega

/-- The loop over what the iterator visits starts behind the caller's last identifier. -/
theorem readLogLoop_logTail {st : SharedTable} (log : LogOf st) (word : st.logcounter < 2 ^ 64) {tlist : TransListT}
    (bound : tlist.lastid ≤ st.logcounter) : readLogLoop 0 tlist (logTail st tlist.lastid) =
      readLogLoop 0 tlist ((logBehind st tlist.lastid).map fun record => (logKey record.id, .log record)) := by
  rw [logTail_eq log word bound]
  cases has : st.logStore.get? (logKey tlist.lastid) with
  | none => rfl
  | some value =>
    rcases log _ value (hasType_logKey _) has with ⟨zero, rfl⟩ | ⟨record, rfl, here, _⟩
    · rw [Option.toList_some, List.map_cons, List.map_nil, List.singleton_append]
      exact readLogLoop_skip rfl (logKey_inj.mp zero).symm _
    · rw [Option.toList_some, List.map_cons, List.map_nil, List.singleton_append]
      exact readLogLoop_skip rfl (logKey_inj.mp here).symm _

end Loop

section GapFree

variable {st st' : SharedTable} {first : ℕ}

/-- A node whose log has at most the fence. -/
def LogEmpty (st : SharedTable) : Prop :=
  ∀ key value, HasType .kLogNode key → st.logStore.get? key = some value → key = logKey 0 ∧ value = .data .empty

theorem LogEmpty.logEntry_eq_none (empty : LogEmpty st) {id : ℕ} (positive : 1 ≤ id) : logEntry st id = none := by
  rw [logEntry, Option.bind_eq_none_iff]
  intro value has
  have zero := logKey_inj.mp (empty _ value (hasType_logKey id) has).1
  omega

theorem LogEmpty.gapFree (empty : LogEmpty st) : GapFree st (st.logcounter + 1) where
  log key value ofLog has := .inl (empty key value ofLog has)
  positive := Nat.succ_le_succ (Nat.zero_le _)
  bound := le_rfl
  entries id positive := by
    rw [empty.logEntry_eq_none positive]
    simp only [Option.isSome_none, Bool.false_eq_true, false_iff]
    omega

/-- One more transaction keeps the log without gaps. -/
theorem GapFree.appended (gapFree : GapFree st first) {record : TransactionT}
    (appended : Appended st st' record) (next : record.id = st.logcounter + 1) : GapFree st' first where
  log := appended.logOf gapFree.log
  positive := gapFree.positive
  bound := by
    have bound := gapFree.bound
    have counter := appended.logcounter
    omega
  entries id positive := by
    have bound := gapFree.bound
    rw [appended.entries id positive, appended.logcounter]
    split
    · next isNext =>
      simp only [Option.isSome_some, true_iff]
      omega
    · next older =>
      rw [gapFree.entries id positive]
      omega

end GapFree

section Read

variable {st : SharedTable} {first : ℕ} {request : TransListT}

/-- Behind an identifier that is not before the log's first one, all identifiers up to the counter follow. -/
theorem GapFree.logBehind_run (gapFree : GapFree st first) {lastid : ℕ} (begun : first ≤ lastid + 1) :
    (logBehind st lastid).map some = (List.range' (lastid + 1) (st.logcounter - lastid)).map (logEntry st) ∧
      (logBehind st lastid).length = st.logcounter - lastid := by
  have all : ∀ id ∈ List.range' (lastid + 1) (st.logcounter - lastid), (logEntry st id).isSome := by
    intro id inRange
    have bounds := List.mem_range'_1.mp inRange
    exact (gapFree.entries id (by omega)).mpr (by omega)
  have mapped := map_eq_map_some all
  refine ⟨mapped.symm, ?_⟩
  have lengths := congrArg List.length mapped
  rw [List.length_map, List.length_map, List.length_range'] at lengths
  exact lengths.symm

theorem GapFree.logBehind_ids (gapFree : GapFree st first) {lastid : ℕ} (begun : first ≤ lastid + 1) :
    (logBehind st lastid).map TransactionT.id = List.range' (lastid + 1) (logBehind st lastid).length := by
  obtain ⟨run, length⟩ := gapFree.logBehind_run begun
  rw [length]
  refine List.ext_getElem (by simp [length]) fun i inList inRange => ?_
  rw [List.getElem_map, List.getElem_range']
  have here := congrArg (fun l => l[i]?) run
  simp only [List.getElem?_map] at here
  rw [List.length_map] at inList
  rw [List.length_range'] at inRange
  rw [List.getElem?_eq_getElem inList, List.getElem?_eq_getElem (by simpa using inRange), List.getElem_range'] at here
  have has := (Option.some.inj here).symm
  rw [(gapFree.log.entry (by omega) has).1]

/-- What a caller behind the counter is answered, if the log goes on where the caller's ends. -/
theorem GapFree.readLog_behind (gapFree : GapFree st first) (word : st.logcounter < 2 ^ 64)
    (begun : first ≤ request.lastid + 1) (behind : request.lastid < st.logcounter) (now : UInt64) :
    readLog st request now = .ok
      { request with
        lastid := request.lastid + min (st.logcounter - request.lastid) (request.limit + 1)
        trans := request.trans ++ (logBehind st request.lastid).take (request.limit + 1)
        limit := min (st.logcounter - request.lastid) (request.limit + 1) - 1
        currid := st.logcounter
        ts := now } := by
  have length := (gapFree.logBehind_run begun).2
  have loop := readLogLoop_logTail gapFree.log word behind.le
  rw [readLogLoop_run (gapFree.logBehind_ids begun) (Nat.zero_le _), length, Nat.sub_zero, Nat.zero_add] at loop
  have some : min (st.logcounter - request.lastid) (request.limit + 1) ≠ 0 := by omega
  rw [readLog, if_neg (by omega), if_neg (by omega), ← logTail]
  simp only [loop, some, if_false]

/-- And if it does not: nothing, with the limit as it was. -/
theorem GapFree.readLog_gap (gapFree : GapFree st first) (word : st.logcounter < 2 ^ 64)
    (gap : request.lastid + 1 < first) (now : UInt64) :
    readLog st request now = .ok { request with currid := st.logcounter, ts := now } := by
  have bound := gapFree.bound
  have loop := @readLogLoop_logTail st gapFree.log word request (by omega)
  rw [readLogLoop_gap] at loop
  · rw [readLog, if_neg (by omega), if_neg (by omega), ← logTail]
    simp only [loop, if_true]
  · intro record member
    obtain ⟨above, has⟩ := (mem_logBehind gapFree.log).mp member
    have entry := (gapFree.entries record.id (by omega)).mp (by rw [has]; rfl)
    omega

/-- On a log without gaps, `ReadLog` answers what it should exactly if there is nothing to answer: the caller
has the whole log, or asks for nothing that the log has next. -/
theorem readLog_exact_iff (gapFree : GapFree st first) (word : st.logcounter < 2 ^ 64)
    (bound : request.lastid ≤ st.logcounter) (now : UInt64) :
    ReadsExactly st request (readLog st request now) ↔
      request.lastid = st.logcounter ∨ (request.limit = 0 ∧ request.lastid + 1 < first) := by
  rcases Nat.lt_or_eq_of_le bound with behind | same
  · rw [or_iff_right behind.ne]
    rcases Nat.lt_or_ge (request.lastid + 1) first with gap | begun
    · rw [gapFree.readLog_gap word gap]
      constructor
      · rintro ⟨answer, listed, answered, trans, _, _, _, limit, _⟩
        cases answered
        obtain rfl : listed = [] := by simpa using trans
        exact ⟨limit, gap⟩
      · rintro ⟨zero, _⟩
        exact ⟨_, [], rfl, by simp, by simp [zero], rfl, by simp, by simp [zero], rfl⟩
    · rw [gapFree.readLog_behind word begun behind]
      refine iff_of_false ?_ (by omega)
      rintro ⟨answer, listed, answered, trans, _, _, _, limit, _⟩
      cases answered
      -- what is handed on is one more than the answer says
      obtain rfl := List.append_cancel_left trans
      have length := (gapFree.logBehind_run begun).2
      rw [List.length_take, length] at limit
      change min (st.logcounter - request.lastid) (request.limit + 1) - 1 = _ at limit
      omega
  · refine iff_of_true ?_ (.inl same)
    rw [readLog, if_neg (by omega), if_pos same]
    exact ⟨_, [], rfl, by simp, by simp [same], rfl, by simp, rfl, rfl⟩

end Read

/-- A transaction that sets a name. -/
def nameTransaction (name : String) : TransactionT where
  item := [⟨ascii "x", .peer { name := ascii name }, false⟩]

/-- A master on an empty store that committed two transactions, with the identifiers two and three. -/
def twiceCommitted : SharedTable :=
  (commit { now := 6 } (commit { now := 5 } { logcounter := 1 } (nameTransaction "a") true).2 (nameTransaction "b") true).2

theorem gapFree_twiceCommitted : GapFree twiceCommitted 2 := by
  have empty : LogEmpty { logcounter := 1 } := fun key value _ has => (Option.some_ne_none value has.symm).elim
  have off (name : String) : ItemsOffLog (nameTransaction name).item := by
    intro item member
    obtain rfl := List.mem_singleton.mp member
    change ¬ HasType .kLogNode (ascii "x")
    decide
  have appended (env : CommitEnv) (st : SharedTable) (name : String) (logged : env.logPut = true)
      (written : env.dataWrite = true) : Appended st (commit env st (nameTransaction name) true).2 _ :=
    commit_appended true (by simp [nameTransaction]) logged written (.inr (off name))
  exact (empty.gapFree.appended (appended { now := 5 } _ "a" rfl rfl) rfl).appended
    (appended { now := 6 } _ "b" rfl rfl) rfl

theorem readLog_exact_iff_twiceCommitted :
    ReadsExactly twiceCommitted { lastid := 2, limit := 5 } (readLog twiceCommitted { lastid := 2, limit := 5 } 7) ↔
      (2 : ℕ) = twiceCommitted.logcounter ∨ ((5 : ℕ) = 0 ∧ (2 : ℕ) + 1 < 2) :=
  readLog_exact_iff gapFree_twiceCommitted (by decide) (by decide) 7

/-- Asked for one transaction, the master hands on two, and says that it is one. -/
theorem twiceCommitted_reads_more :
    (∃ answer, readLog twiceCommitted { lastid := 1, limit := 1 } 7 = .ok answer ∧ answer.trans.length = 2 ∧
      answer.limit = 1) ∧
    ¬ ReadsExactly twiceCommitted { lastid := 1, limit := 1 } (readLog twiceCommitted { lastid := 1, limit := 1 } 7) := by
  have answers : readLog twiceCommitted { lastid := 1, limit := 1 } 7 = .ok
      { lastid := 3
        limit := 1
        trans := [{ nameTransaction "a" with id := 2, ts := 5 }, { nameTransaction "b" with id := 3, ts := 6 }]
        currid := 3
        ts := 7 } := by decide +kernel
  refine ⟨⟨_, answers, rfl, rfl⟩, ?_⟩
  rintro ⟨answer, listed, answered, trans, _, _, _, limit, _⟩
  cases answers.symm.trans answered
  have counted := congrArg List.length trans
  rw [List.length_append, ← limit] at counted
  cases counted

end Identt
