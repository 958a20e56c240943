import Identt.Hrpc.MasterRun
import Identt.Store.TableScan

/-! # Outgoing messages, page by page

A sender that acknowledges nothing is given the pending messages behind the last one that it names. What
is left behind the last message of a page is what the next call starts from. Two boundary values break
the paging: a limit of zero sets no bound, and the largest identifier has no next one.
-/

namespace Identt.Hrpc

open Store Query MailSmsService

/-- What a sender is given for a record. -/
def outgoing (record : ParAvionT) : Mail.MPayloadT := record.payload.getD {}

/-- The last identifier of a page, or the one that was asked from. -/
def lastIdOf (page : List ParAvionT) (lastid : ℕ) : ℕ := (page.getLast?.map ParAvionT.id).getD lastid

/-- The pending records behind an identifier, in the order of their identifiers. -/
def PendingAfter (st : SharedTable) (lastid : ℕ) (listed : List ParAvionT) : Prop :=
  parAvionTable.Listed (worldOf st.maindb .parAvion) (lastid + 1) listed

/-- The first records of a list that are handed out for a limit: a hundred at most, and so many if no limit is set. -/
def firstPage (limit : ℕ) (listed : List ParAvionT) : List ParAvionT :=
  listed.take (min (if limit = 0 then 100 else limit) 100)

/-- The call hands out the first pending records behind the identifier that it names, and names the last of them. -/
def FetchesNext (st : SharedTable) (mailq : Mail.MailQueryT) : Prop :=
  ∃ listed, PendingAfter st mailq.lastid listed ∧ ∀ env, (serve st (.pending mailq) env).1 = .ok (.pending { mailq with
    lastid := lastIdOf (firstPage mailq.limit listed) mailq.lastid
    payload := (firstPage mailq.limit listed).map outgoing })

/-- The query of the call after `i` others that each start where the one before left off. -/
def nthQuery (st : SharedTable) (limit : ℕ) : ℕ → Except Exn Mail.MailQueryT
  | 0 => .ok { limit := limit }
  | i + 1 => do
    let mailq ← nthQuery st limit i
    let answer ← fetchPending st.maindb mailq
    return { answer with payload := [] }

/-- What that call hands out. -/
def nthPage (st : SharedTable) (limit i : ℕ) : List Mail.MPayloadT :=
  match nthQuery st limit i >>= fetchPending st.maindb with
  | .ok answer => answer.payload
  | .error _ => []

/-- What the first calls hand out together. -/
def delivered (st : SharedTable) (limit k : ℕ) : List Mail.MPayloadT := (List.range k).flatMap (nthPage st limit)

/-- Repeating the call hands out every pending record once, in order, and never more than a hundred at a time. -/
structure DeliversOnce (st : SharedTable) (limit : ℕ) : Prop where
  bounded : ∀ i, (nthPage st limit i).length ≤ 100
  once : ∃ listed, PendingAfter st 0 listed ∧ (∀ k, delivered st limit k <+: listed.map outgoing) ∧
    ∃ k, delivered st limit k = listed.map outgoing

/-- At most so many records are pending behind an identifier. -/
def AtMost (st : SharedTable) (lastid bound : ℕ) : Prop :=
  ∀ listed, PendingAfter st lastid listed → listed.length ≤ bound

section Fold

/-- Records behind the identifier that was named, in order, are appended one by one. -/
theorem foldl_handOut {page : List ParAvionT} (ordered : page.Pairwise fun a b => a.id < b.id)
    (mailq : Mail.MailQueryT) (later : ∀ record ∈ page, mailq.lastid < record.id) :
    page.foldl handOut mailq =
      { mailq with lastid := lastIdOf page mailq.lastid, payload := mailq.payload ++ page.map outgoing } := by
  induction page generalizing mailq with
  | nil => simp [lastIdOf]
  | cons record rest ih =>
    obtain ⟨first, orderedRest⟩ := List.pairwise_cons.mp ordered
    have next : (handOut mailq record).lastid = record.id := if_pos (later record (List.mem_cons_self ..))
    rw [List.foldl_cons, ih orderedRest (handOut mailq record) (by rw [next]; exact first), next]
    cases rest with
    | nil => simp [handOut, lastIdOf, outgoing, later record (List.mem_cons_self ..)]
    | cons other rest =>
      obtain ⟨last, isLast⟩ := Option.isSome_iff_exists.mp (show ((other :: rest).getLast?).isSome by simp)
      have same : (record :: other :: rest).getLast? = some last := by rw [List.getLast?_cons_cons, isLast]
      simp only [lastIdOf, isLast, same]
      simp [handOut, outgoing]

/-- Records that are not behind it are appended as well, but the identifier stays. -/
theorem foldl_handOut_before {page : List ParAvionT} (mailq : Mail.MailQueryT)
    (before : ∀ record ∈ page, record.id ≤ mailq.lastid) :
    page.foldl handOut mailq = { mailq with payload := mailq.payload ++ page.map outgoing } := by
  induction page generalizing mailq with
  | nil => simp
  | cons record rest ih =>
    have here : handOut mailq record = { mailq with payload := mailq.payload ++ [outgoing record] } := by
      rw [handOut, if_neg (not_lt.mpr (before record (List.mem_cons_self ..)))]
      rfl
    rw [List.foldl_cons, here, ih { mailq with payload := mailq.payload ++ [outgoing record] } fun other member =>
      before other (List.mem_cons_of_mem _ member)]
    simp

end Fold

/-- The page that the scan hands over. -/
def scannedPage (limit : ℕ) (listed : List ParAvionT) : List ParAvionT :=
  if limit = 0 then listed else listed.take (min limit 100)

theorem scannedPage_begins (limit : ℕ) (listed : List ParAvionT) : scannedPage limit listed <+: listed := by
  unfold scannedPage
  split
  · exact List.prefix_refl _
  · exact List.take_prefix ..

/-- A page is empty only where nothing is pending. -/
theorem scannedPage_eq_nil {limit : ℕ} {listed : List ParAvionT} (empty : scannedPage limit listed = []) :
    listed = [] := by
  unfold scannedPage at empty
  split at empty
  · exact empty
  · exact (List.take_eq_nil_iff.mp empty).resolve_left (by omega)

/-- The scan hands over the first page, unless no limit is set and more than a hundred records are pending. -/
theorem scannedPage_eq_iff {limit : ℕ} {listed : List ParAvionT} :
    (scannedPage limit listed).map outgoing = (firstPage limit listed).map outgoing ↔
      limit ≠ 0 ∨ listed.length ≤ 100 := by
  by_cases unset : limit = 0
  · simp only [scannedPage, firstPage, unset, if_true, min_self, ne_eq, not_true_eq_false, false_or]
    constructor
    · intro same
      have lengths := congrArg List.length same
      simp only [List.length_map, List.length_take] at lengths
      omega
    · intro few
      rw [List.take_of_length_le few]
  · simp [scannedPage, firstPage, unset]

section Fetch

variable {st : SharedTable} (represents : parAvionTable.Represents st.maindb (worldOf st.maindb .parAvion))
  (word : ∀ n mail, worldOf st.maindb .parAvion n = some mail → n < 2 ^ 64)
include represents word

/-- A scan for a page, from wherever it starts. -/
theorem scan_pending {lastid : ℕ} (small : lastid + 1 < 2 ^ 64) (limit : ℕ) (mailq : Mail.MailQueryT) :
    ∃ listed, PendingAfter st lastid listed ∧
      parAvionTable.scanTable st.maindb (if 0 < lastid then lastid + 1 else 0) (if 100 < limit then 100 else limit)
        handOut mailq = .ok ((scannedPage limit listed).foldl handOut mailq) := by
  obtain ⟨listed, isListed, scans⟩ := @StoreTable.scanTable_eq _ _ _ _ represents word
    (if 0 < lastid then lastid + 1 else 0) (by split <;> omega)
  refine ⟨listed, ⟨isListed.ordered, fun record => ?_⟩, ?_⟩
  · rw [isListed.mem_iff]
    refine and_congr_right fun stored => ?_
    have positive := represents.ne_zero stored
    split <;> omega
  · rw [scans]
    by_cases unset : limit = 0
    · simp [scannedPage, unset]
    · have cap : (if 100 < limit then 100 else limit) = min limit 100 := by
        split <;> omega
      rw [cap, if_neg (by omega), scannedPage, if_neg unset]

/-- Where there is a next identifier, the call hands out a page from there. -/
theorem fetchPending_next {mailq : Mail.MailQueryT} (small : mailq.lastid + 1 < 2 ^ 64) :
    ∃ listed, PendingAfter st mailq.lastid listed ∧ fetchPending st.maindb mailq = .ok { mailq with
      lastid := lastIdOf (scannedPage mailq.limit listed) mailq.lastid
      payload := mailq.payload ++ (scannedPage mailq.limit listed).map outgoing } := by
  obtain ⟨listed, isListed, scan⟩ := @scan_pending st represents word mailq.lastid small mailq.limit mailq
  refine ⟨listed, isListed, ?_⟩
  have page := (scannedPage_begins mailq.limit listed).sublist
  rw [fetchPending, Nat.mod_eq_of_lt small, scan, foldl_handOut (isListed.ordered.sublist page) mailq]
  intro record member
  exact ((isListed.mem_iff record).mp (page.subset member)).2

/-- Behind the largest identifier the call starts over. -/
theorem fetchPending_wraps {mailq : Mail.MailQueryT} (largest : mailq.lastid + 1 = 2 ^ 64) :
    ∃ listed, PendingAfter st 0 listed ∧ fetchPending st.maindb mailq = .ok { mailq with
      payload := mailq.payload ++ (scannedPage mailq.limit listed).map outgoing } := by
  obtain ⟨listed, isListed, scan⟩ := @scan_pending st represents word 0 (by omega) mailq.limit mailq
  refine ⟨listed, isListed, ?_⟩
  have page := (scannedPage_begins mailq.limit listed).sublist
  rw [if_neg (lt_irrefl 0)] at scan
  rw [fetchPending, largest, Nat.mod_self, ite_self, scan, foldl_handOut_before mailq]
  intro record member
  have stored := ((isListed.mem_iff record).mp (page.subset member)).1
  have small := word _ record stored
  change record.id < _ at small
  omega

end Fetch

/-- A call that acknowledges nothing only reads. -/
theorem serve_pending_fetch (st : SharedTable) {mailq : Mail.MailQueryT} (nothing : mailq.payload = []) (env : ActionEnv) :
    serve st (.pending mailq) env = ((fetchPending st.maindb mailq).map .pending, st) := by
  have gives : ReadM.Gives ((MasterRequest.pending mailq).read st env) st.maincounter
      ⟨none, fun db => (fetchPending db mailq).map .pending⟩ st.maincounter := by
    simp only [MasterRequest.read, pendingAction, if_pos nothing, ReadM.gives_bind, ReadM.gives_pure]
    exact ⟨_, _, ⟨rfl, rfl⟩, rfl, rfl⟩
  rw [serve, runAction, gives]
  rfl

section Paging

variable {st : SharedTable} (represents : parAvionTable.Represents st.maindb (worldOf st.maindb .parAvion))
  (word : ∀ n mail, worldOf st.maindb .parAvion n = some mail → n < 2 ^ 64)

/-- What is behind the last record of a page is what the page leaves. -/
theorem PendingAfter.next {lastid : ℕ} {page rest : List ParAvionT} (pending : PendingAfter st lastid (page ++ rest)) :
    PendingAfter st (lastIdOf page lastid) rest := by
  obtain ⟨ordered, mem_iff⟩ := pending
  cases page using List.reverseRecOn with
  | nil => exact ⟨ordered, mem_iff⟩
  | append_singleton front last =>
    obtain ⟨frontOrdered, restOrdered, between⟩ := List.pairwise_append.mp ordered
    have lastHere : lastIdOf (front ++ [last]) lastid = last.id := by simp [lastIdOf]
    rw [lastHere]
    refine ⟨restOrdered, fun record => ?_⟩
    constructor
    · intro member
      exact ⟨((mem_iff record).mp (List.mem_append_right _ member)).1, between last (by simp) record member⟩
    · rintro ⟨stored, after⟩
      have lastBound := ((mem_iff last).mp (by simp)).2
      have listed := (mem_iff record).mpr ⟨stored, lastBound.trans (Nat.le_of_succ_le after)⟩
      refine (List.mem_append.mp listed).resolve_left fun early => ?_
      rcases List.mem_append.mp early with inFront | isLast
      · have less : record.id < last.id :=
          (List.pairwise_append.mp frontOrdered).2.2 record inFront last (List.mem_singleton_self _)
        change last.id < record.id at after
        omega
      · obtain rfl := List.mem_singleton.mp isLast
        exact Nat.not_succ_le_self _ after

/-- No record is behind the largest identifier. -/
theorem PendingAfter.eq_nil {lastid : ℕ} {listed : List ParAvionT} (pending : PendingAfter st lastid listed)
    (largest : lastid + 1 = 2 ^ 64) (word : ∀ n mail, worldOf st.maindb .parAvion n = some mail → n < 2 ^ 64) :
    listed = [] := by
  refine List.eq_nil_iff_forall_not_mem.mpr fun record member => ?_
  obtain ⟨stored, bound⟩ := (pending.mem_iff record).mp member
  have small := word _ record stored
  omega

/-- The calls so far handed out the pending records up to the identifier that the next one names. -/
structure Progress (st : SharedTable) (limit : ℕ) (listed : List ParAvionT) (k lastid : ℕ) (rest : List ParAvionT) :
    Prop where
  query : nthQuery st limit k = .ok { limit := limit, lastid := lastid }
  named : lastid = 0 ∨ ∃ mail, worldOf st.maindb .parAvion lastid = some mail
  pending : PendingAfter st lastid rest
  split : delivered st limit k ++ rest.map outgoing = listed.map outgoing
  few : rest.length ≤ listed.length - k

theorem delivered_succ (st : SharedTable) (limit k : ℕ) :
    delivered st limit (k + 1) = delivered st limit k ++ nthPage st limit k := by
  simp [delivered, List.range_succ]

section Calls

include represents word

/-- The next call hands out a page, if the identifier that it names has a next one. -/
theorem Progress.step {limit k lastid : ℕ} {listed rest : List ParAvionT}
    (progress : Progress st limit listed k lastid rest) (small : lastid + 1 < 2 ^ 64) :
    nthPage st limit k = (scannedPage limit rest).map outgoing ∧
      ∃ lastid' rest', Progress st limit listed (k + 1) lastid' rest' := by
  obtain ⟨rest', pending, fetched⟩ := @fetchPending_next st represents word { limit := limit, lastid := lastid } small
  obtain rfl := pending.unique progress.pending
  have page : nthPage st limit k = (scannedPage limit rest').map outgoing := by
    rw [nthPage, progress.query]
    change (match fetchPending st.maindb { limit := limit, lastid := lastid } with
      | .ok answer => answer.payload
      | .error _ => []) = _
    rw [fetched]
    rfl
  obtain ⟨left, parts⟩ := scannedPage_begins limit rest'
  refine ⟨page, lastIdOf (scannedPage limit rest') lastid, left, ?_, ?_, ?_, ?_, ?_⟩
  · simp only [nthQuery, progress.query, bind, Except.bind, fetched]
    rfl
  · cases last : (scannedPage limit rest').getLast? with
    | none => simpa [lastIdOf, last] using progress.named
    | some mail =>
      right
      have inPage := List.mem_of_getLast? last
      have stored := ((pending.mem_iff mail).mp ((scannedPage_begins limit rest').subset inPage)).1
      have here : lastIdOf (scannedPage limit rest') lastid = mail.id := by simp [lastIdOf, last]
      rw [here]
      exact ⟨mail, stored⟩
  · rw [← parts] at pending
    exact pending.next
  · rw [delivered_succ, page, List.append_assoc, ← List.map_append, parts]
    exact progress.split
  · have lengths := congrArg List.length parts
    have few := progress.few
    rw [List.length_append] at lengths
    rcases Nat.eq_zero_or_pos (scannedPage limit rest').length with empty | some
    · have nothing := scannedPage_eq_nil (List.length_eq_zero_iff.mp empty)
      rw [nothing, List.length_nil] at lengths
      omega
    · omega

end Calls

theorem Progress.start {limit : ℕ} {listed : List ParAvionT} (pending : PendingAfter st 0 listed) :
    Progress st limit listed 0 0 listed :=
  ⟨rfl, .inl rfl, pending, rfl, Nat.le_refl _⟩

section Exact

include represents word

/-- A call hands out the records behind the identifier that it names, exactly if a limit is set or there are at most
a hundred, and if the identifier has a next one or nothing is pending at all. -/
theorem fetchesNext_iff {mailq : Mail.MailQueryT} (nothing : mailq.payload = []) (small : mailq.lastid < 2 ^ 64) :
    FetchesNext st mailq ↔ (mailq.limit ≠ 0 ∨ AtMost st mailq.lastid 100) ∧
      (mailq.lastid + 1 < 2 ^ 64 ∨ ∀ n mail, worldOf st.maindb .parAvion n ≠ some mail) := by
  have answers (answer : Mail.MailQueryT) : (∀ env, (serve st (.pending mailq) env).1 = .ok (.pending answer)) ↔
      fetchPending st.maindb mailq = .ok answer := by
    simp only [serve_pending_fetch st nothing]
    constructor
    · intro served
      have mapped := served { currtime := 0, commit := { now := 0 } }
      cases fetched : fetchPending st.maindb mailq with
      | error e =>
        rw [fetched] at mapped
        contradiction
      | ok other =>
        rw [fetched] at mapped
        rw [MasterRequest.pending.inj (Except.ok.inj mapped)]
    · intro fetched env
      rw [fetched]
      rfl
  simp only [FetchesNext, answers]
  rcases Nat.lt_or_ge (mailq.lastid + 1) (2 ^ 64) with next | last
  · obtain ⟨listed, pending, fetched⟩ := @fetchPending_next st represents word mailq next
    have count : AtMost st mailq.lastid 100 ↔ listed.length ≤ 100 :=
      ⟨fun atMost => atMost listed pending, fun few other isOther => by rwa [isOther.unique pending]⟩
    rw [count, ← scannedPage_eq_iff, and_iff_left (.inl next), fetched]
    constructor
    · rintro ⟨other, isOther, same⟩
      obtain rfl := isOther.unique pending
      simpa [nothing] using congrArg Mail.MailQueryT.payload (Except.ok.inj same)
    · intro same
      refine ⟨listed, pending, ?_⟩
      have samePage : scannedPage mailq.limit listed = firstPage mailq.limit listed := by
        have lengths := congrArg List.length same
        rw [List.length_map, List.length_map] at lengths
        rw [List.prefix_iff_eq_take.mp (scannedPage_begins mailq.limit listed), lengths]
        exact (List.prefix_iff_eq_take.mp (List.take_prefix ..)).symm
      rw [samePage, nothing, List.nil_append]
  · have largest : mailq.lastid + 1 = 2 ^ 64 := by omega
    obtain ⟨all, pendingAll, fetched⟩ := @fetchPending_wraps st represents word mailq largest
    obtain ⟨listed, isListed, _⟩ := @StoreTable.scanTable_eq _ _ _ _ represents word 0 (by omega)
    have pending : PendingAfter st mailq.lastid (listed.filter fun record => mailq.lastid + 1 ≤ parAvionTable.id record) :=
      isListed.filter (Nat.zero_le _)
    have empty := pending.eq_nil largest word
    rw [empty] at pending
    have few : AtMost st mailq.lastid 100 := by
      intro other isOther
      rw [isOther.eq_nil largest word]
      exact Nat.zero_le _
    rw [and_iff_right (.inr few), or_iff_right (by omega), fetched]
    constructor
    · rintro ⟨other, isOther, same⟩ n mail has
      obtain rfl := isOther.eq_nil largest word
      have page := congrArg Mail.MailQueryT.payload (Except.ok.inj same)
      simp only [nothing, List.nil_append, firstPage, List.take_nil, List.map_nil, List.map_eq_nil_iff] at page
      have member := (pendingAll.mem_iff mail).mpr
      rw [scannedPage_eq_nil page, represents.id_eq n mail has] at member
      exact List.not_mem_nil (member ⟨has, Nat.pos_of_ne_zero (represents.ne_zero has)⟩)
    · intro nobody
      refine ⟨[], pending, ?_⟩
      have none : all = [] := List.eq_nil_iff_forall_not_mem.mpr fun record member =>
        nobody _ record ((pendingAll.mem_iff record).mp member).1
      simp [none, scannedPage, firstPage, lastIdOf, nothing]

/-- As long as the largest identifier was not named, the calls make progress. -/
theorem progress_or_wrapped {limit : ℕ} {listed : List ParAvionT} (pending : PendingAfter st 0 listed) (k : ℕ) :
    (∃ lastid rest, Progress st limit listed k lastid rest) ∨
      ∃ j lastid rest, Progress st limit listed j lastid rest ∧ lastid + 1 = 2 ^ 64 := by
  induction k with
  | zero => exact .inl ⟨0, listed, .start pending⟩
  | succ k ih =>
    rcases ih with ⟨lastid, rest, progress⟩ | wrapped
    · have named : lastid < 2 ^ 64 := by
        rcases progress.named with rfl | ⟨mail, has⟩
        · omega
        · exact word lastid mail has
      rcases Nat.lt_or_ge (lastid + 1) (2 ^ 64) with small | last
      · exact .inl (progress.step represents word small).2
      · exact .inr ⟨k, lastid, rest, progress, by omega⟩
    · exact .inr wrapped

/-- If a record has the largest identifier, the calls start over once they named it. -/
theorem delivered_again {limit : ℕ} {listed : List ParAvionT} (pending : PendingAfter st 0 listed) {mail : ParAvionT}
    (has : worldOf st.maindb .parAvion (2 ^ 64 - 1) = some mail) :
    ∃ k, ¬ delivered st limit k <+: listed.map outgoing := by
  have number : mail.id = 2 ^ 64 - 1 := represents.id_eq _ mail has
  have stored : worldOf st.maindb .parAvion mail.id = some mail := number ▸ has
  have wrapped : ∃ k lastid rest, Progress st limit listed k lastid rest ∧ lastid + 1 = 2 ^ 64 := by
    rcases @progress_or_wrapped st represents word limit listed pending listed.length with
      ⟨lastid, rest, progress⟩ | wrapped
    · refine ⟨_, lastid, rest, progress, ?_⟩
      by_contra differ
      have named : lastid < 2 ^ 64 := by
        rcases progress.named with rfl | ⟨other, hasOther⟩
        · omega
        · exact word lastid other hasOther
      have inRest := (progress.pending.mem_iff mail).mpr ⟨stored, by
        change lastid + 1 ≤ mail.id
        omega⟩
      have few := progress.few
      have some := List.length_pos_of_mem inRest
      omega
    · exact wrapped
  obtain ⟨k, lastid, rest, progress, largest⟩ := wrapped
  obtain ⟨all, pendingAll, fetched⟩ := @fetchPending_wraps st represents word { limit := limit, lastid := lastid } largest
  obtain rfl := pendingAll.unique pending
  have page : nthPage st limit k = (scannedPage limit all).map outgoing := by
    rw [nthPage, progress.query]
    change (match fetchPending st.maindb { limit := limit, lastid := lastid } with
      | .ok answer => answer.payload
      | .error _ => []) = _
    rw [fetched]
    rfl
  have soFar := progress.split
  rw [progress.pending.eq_nil largest word, List.map_nil, List.append_nil] at soFar
  refine ⟨k + 1, fun within => ?_⟩
  have lengths := within.length_le
  rw [delivered_succ, soFar, page, List.length_append, List.length_map, List.length_map] at lengths
  have nothing := scannedPage_eq_nil (List.length_eq_zero_iff.mp (show (scannedPage limit all).length = 0 by omega))
  have inAll := (pending.mem_iff mail).mpr ⟨stored, by
    change 0 + 1 ≤ mail.id
    omega⟩
  rw [nothing] at inAll
  exact List.not_mem_nil inAll

/-- Repeating the call hands every record out once, exactly if a limit is set or there are at most a hundred, and if
no record has the largest identifier. -/
theorem deliversOnce_iff (limit : ℕ) : DeliversOnce st limit ↔
    (limit ≠ 0 ∨ AtMost st 0 100) ∧ ∀ mail, worldOf st.maindb .parAvion (2 ^ 64 - 1) ≠ some mail := by
  obtain ⟨listed, pending, _⟩ := @scan_pending st represents word 0 (by omega) limit {}
  have count : AtMost st 0 100 ↔ listed.length ≤ 100 :=
    ⟨fun atMost => atMost listed pending, fun few other isOther => by rwa [isOther.unique pending]⟩
  rw [count]
  constructor
  · rintro ⟨bounded, listed', pending', once, _⟩
    obtain rfl := pending'.unique pending
    refine ⟨?_, fun mail has => ?_⟩
    · by_cases unset : limit = 0
      · right
        have first := ((@Progress.start st limit listed' pending).step represents word (by omega)).1
        have few := bounded 0
        rw [first, scannedPage, if_pos unset, List.length_map] at few
        exact few
      · exact .inl unset
    · obtain ⟨k, beyond⟩ := @delivered_again st represents word limit listed' pending mail has
      exact beyond (once k)
  · rintro ⟨paged, noLargest⟩
    have small {k lastid : ℕ} {rest : List ParAvionT} (progress : Progress st limit listed k lastid rest) :
        lastid + 1 < 2 ^ 64 := by
      rcases progress.named with rfl | ⟨mail, has⟩
      · omega
      · have bound := word lastid mail has
        by_contra largest
        have isLargest : lastid = 2 ^ 64 - 1 := by omega
        rw [isLargest] at has
        exact noLargest mail has
    have progresses (k : ℕ) : ∃ lastid rest, Progress st limit listed k lastid rest := by
      rcases @progress_or_wrapped st represents word limit listed pending k with
        progress | ⟨_, _, _, progress, largest⟩
      · exact progress
      · exact ((small progress).ne largest).elim
    refine ⟨fun i => ?_, listed, pending, fun k => ?_, listed.length, ?_⟩
    · obtain ⟨lastid, rest, progress⟩ := progresses i
      rw [(progress.step represents word (small progress)).1, List.length_map, scannedPage]
      split
      · next unset =>
        have few := progress.few
        have all := paged.resolve_left (not_not.mpr unset)
        omega
      · rw [List.length_take]
        omega
    · obtain ⟨lastid, rest, progress⟩ := progresses k
      exact ⟨_, progress.split⟩
    · obtain ⟨lastid, rest, progress⟩ := progresses listed.length
      have done : rest = [] := List.length_eq_zero_iff.mp (by have few := progress.few; omega)
      rw [← progress.split, done, List.map_nil, List.append_nil]

/-- For every table of outgoing messages: a call that acknowledges nothing hands out the first messages behind the
identifier that it names exactly if a limit is set or at most a hundred follow, and the identifier has a next one or
nothing is pending; and repeating the call hands every message out once, in pages of a hundred at most, exactly if
a limit is set or there are at most a hundred, and no message has the largest identifier. -/
theorem pages_iff :
    (∀ mailq : Mail.MailQueryT, mailq.payload = [] → mailq.lastid < 2 ^ 64 → (FetchesNext st mailq ↔
      (mailq.limit ≠ 0 ∨ AtMost st mailq.lastid 100) ∧
        (mailq.lastid + 1 < 2 ^ 64 ∨ ∀ n mail, worldOf st.maindb .parAvion n ≠ some mail))) ∧
    ∀ limit, DeliversOnce st limit ↔
      (limit ≠ 0 ∨ AtMost st 0 100) ∧ ∀ mail, worldOf st.maindb .parAvion (2 ^ 64 - 1) ≠ some mail :=
  ⟨fun _ nothing small => fetchesNext_iff represents word nothing small, deliversOnce_iff represents word⟩

end Exact

end Paging

/-- A store with so many outgoing messages, numbered from one on. -/
def mailStore : ℕ → DB
  | 0 => StoreLevel.putFences .empty
  | n + 1 => applyItems (mailStore n) (parAvionTable.recordItems none { id := n + 1 })

def mails (count n : ℕ) : Option ParAvionT := if 1 ≤ n ∧ n ≤ count then some { id := n } else none

theorem represents_mailStore (count : ℕ) : parAvionTable.Represents (mailStore count) (mails count) := by
  induction count with
  | zero =>
    have none : mails 0 = fun _ => none := by
      funext n
      exact if_neg (by omega)
    rw [none]
    exact representsAll_putFences .parAvion
  | succ count ih =>
    have free : mails count (count + 1) = none := if_neg (by omega)
    have acceptable : parAvionTable.Acceptable (mails count) { id := count + 1 } :=
      acceptable_new (Nat.succ_ne_zero count) rfl fun keytype member => (List.not_mem_nil member).elim
    have added := ih.add acceptable
    change parAvionTable.Represents (applyItems _ (parAvionTable.recordItems (mails count (count + 1)) _))
      (Function.update (mails count) (count + 1) _) at added
    rw [free] at added
    have same : Function.update (mails count) (count + 1) (some { id := count + 1 }) = mails (count + 1) := by
      funext n
      rw [Function.update_apply, mails, mails]
      split
      · next isNew => rw [isNew, if_pos (by omega)]
      · next old => exact if_congr (by omega) rfl rfl
    rwa [same] at added

/-- A master with that many messages. -/
def mailMaster (count : ℕ) : SharedTable := { emptyMaster with maindb := mailStore count }

theorem mailMaster_world (count : ℕ) : worldOf (mailMaster count).maindb .parAvion = mails count :=
  (represents_mailStore count).records_eq.symm

theorem mailMaster_represents (count : ℕ) : parAvionTable.Represents (mailMaster count).maindb
    (worldOf (mailMaster count).maindb .parAvion) := by
  rw [mailMaster_world]
  exact represents_mailStore count

theorem mailMaster_word {count n : ℕ} {mail : ParAvionT} (small : count < 2 ^ 64)
    (has : worldOf (mailMaster count).maindb .parAvion n = some mail) : n < 2 ^ 64 := by
  rw [mailMaster_world, mails] at has
  split at has
  · omega
  · contradiction

theorem mailMaster_pending (count : ℕ) :
    PendingAfter (mailMaster count) 0 ((List.range count).map fun i => { id := i + 1 }) := by
  refine ⟨List.pairwise_map.mpr (List.pairwise_lt_range.imp Nat.succ_lt_succ), fun record => ?_⟩
  rw [mailMaster_world, List.mem_map, mails]
  constructor
  · rintro ⟨i, inRange, rfl⟩
    have bound := List.mem_range.mp inRange
    exact ⟨if_pos ⟨Nat.succ_pos i, bound⟩, Nat.succ_pos i⟩
  · rintro ⟨stored, _⟩
    change (if 1 ≤ record.id ∧ record.id ≤ count then some { id := record.id } else none) = some record at stored
    split at stored
    · next bounds =>
      refine ⟨record.id - 1, List.mem_range.mpr (by omega), ?_⟩
      rw [Nat.sub_add_cancel bounds.1]
      exact Option.some.inj stored
    · contradiction

/-- A call without a limit hands out a hundred and one messages at once. -/
theorem mailMaster_not_fetchesNext : ¬ FetchesNext (mailMaster 101) {} := by
  intro fetches
  have exact := (fetchesNext_iff (mailMaster_represents 101) (fun n mail => mailMaster_word (by omega)) rfl (by decide)).mp
    fetches
  have few := (exact.1.resolve_left (not_not.mpr rfl)) _ (mailMaster_pending 101)
  simp at few

theorem pages_iff_mailMaster : DeliversOnce (mailMaster 101) 10 ↔
    ((10 : ℕ) ≠ 0 ∨ AtMost (mailMaster 101) 0 100) ∧
      ∀ mail, worldOf (mailMaster 101).maindb .parAvion (2 ^ 64 - 1) ≠ some mail :=
  (pages_iff (mailMaster_represents 101) fun n mail => mailMaster_word (by omega)).2 10

end Identt.Hrpc
