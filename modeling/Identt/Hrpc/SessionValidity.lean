import Identt.Hrpc.Submissions

/-! # How long a validation lasts

A validation is meant to last for `THREEPID_SESSION_VALID_LIFETIME_MS`. The actions that use a
session look at its flag only, which is never taken back: neither when the time has passed nor when
a request for a token finds the session expired and writes its time anew.
-/

namespace Identt.Hrpc

open Store Query ReadM ValidateService ThreePidService

/-- The request starts to use the session: its number, secret and state pass the checks of the action. -/
def Accepts (st : SharedTable) (label : ServeStep) (sid : ℕ) : Prop :=
  match label.1 with
  | .getValidated3pid data =>
    stoul data.subtok.sid = .ok sid ∧ ∃ session, checkSession st label.2 data.subtok = .ok session
  | .bind3pid data =>
    stoul data.subtok.sid = .ok sid ∧ ∃ session, checkBinding st label.2 data.subtok = .ok session
  | .getAccessKey data =>
    stoul data.subtok.sid = .ok sid ∧ ∃ session, checkSession st label.2 data.subtok = .ok session
  | _ => False

/-- The request is for a token, and finds the session expired and opens it again. -/
def Reopens (st : SharedTable) (label : ServeStep) (sid : ℕ) : Prop :=
  ∃ data session, label.1 = .requestToken data ∧ worldOf st.maindb .validationSession sid = some session ∧
    sessionValidLifetime < label.2.currtime - session.mtime ∧
    worldOf (serveStep st label).maindb .validationSession sid = some { session with mtime := label.2.currtime }

/-- `GetValidated3pidAction` answers whoever knows the session's number and secret, and reports this time. -/
def Reports (st : SharedTable) (sid : ℕ) (validatedAt : UInt64) : Prop :=
  ∀ data session env, Usable (worldOf st.maindb) data.subtok sid session →
    ∃ reply, (serve st (.getValidated3pid data) env).1 = .ok (.getValidated3pid reply) ∧
      reply.valresult.validatedAt = validatedAt

/-- An event at a step of the run, and at a time. -/
def At (event : SharedTable → ServeStep → ℕ → Prop) (sid : ℕ) (time : UInt64) (st : SharedTable)
    (label : ServeStep) : Prop := event st label sid ∧ label.2.currtime = time

/-- The times of a run never go back, and `now` comes after them. -/
structure ClockRuns (labels : List ServeStep) (now : UInt64) : Prop where
  inOrder : labels.Pairwise fun earlier later => earlier.2.currtime ≤ later.2.currtime
  before : ∀ label ∈ labels, label.2.currtime ≤ now

/-- What a use of the session at the time `now` should rest on: a submission that succeeded, not longer ago
than a validation lasts, after which the session was not opened again, and whose time is reported. -/
def Backed (start : SharedTable) (labels : List ServeStep) (sid : ℕ) (now : UInt64) : Prop :=
  ∃ j validatedAt, Run.Occurs serveStep (At Validates sid validatedAt) start labels j ∧
    now - validatedAt ≤ sessionValidLifetime ∧
    (∀ k, j < k → ¬ Run.Occurs serveStep (fun st label => Reopens st label sid) start labels k) ∧
    Reports (Run.final serveStep start labels) sid validatedAt

/-- No submission that succeeded is longer ago than a validation lasts. -/
def Recent (start : SharedTable) (labels : List ServeStep) (sid : ℕ) (now : UInt64) : Prop :=
  ∀ j time, Run.Occurs serveStep (At Validates sid time) start labels j → now - time ≤ sessionValidLifetime

/-- In the very millisecond in which the session was last opened again, it was submitted once more, and
that is not longer ago than a validation lasts. -/
def Renewed (start : SharedTable) (labels : List ServeStep) (sid : ℕ) (now : UInt64) : Prop :=
  ∃ r j time, r < j ∧ Run.Occurs serveStep (At Reopens sid time) start labels r ∧
    Run.Occurs serveStep (At Validates sid time) start labels j ∧
    (∀ k, r < k → ¬ Run.Occurs serveStep (fun st label => Reopens st label sid) start labels k) ∧
    now - time ≤ sessionValidLifetime

section Step

variable {st : SharedTable}

theorem Accepts.usable (invariant : TableInvariant st.maindb) {label : ServeStep} {sid : ℕ}
    (accepts : Accepts st label sid) : ∃ subtok session, Usable (worldOf st.maindb) subtok sid session := by
  have same {subtok : SubmitTokenT} (parsed : stoul subtok.sid = .ok sid) {session : ValidationSessionT}
      (usable : ∃ sid, Usable (worldOf st.maindb) subtok sid session) :
      ∃ subtok session, Usable (worldOf st.maindb) subtok sid session := by
    obtain ⟨sid', usable⟩ := usable
    obtain rfl : sid' = sid := Except.ok.inj (usable.parsed.symm.trans parsed)
    exact ⟨subtok, session, usable⟩
  obtain ⟨request, env⟩ := label
  cases request with
  | getValidated3pid data | getAccessKey data =>
    obtain ⟨parsed, session, checked⟩ := accepts
    exact same parsed ((checkSession_eq_ok_iff invariant).mp checked)
  | bind3pid data =>
    obtain ⟨parsed, session, checked⟩ := accepts
    exact same parsed ((checkBinding_eq_ok_iff invariant).mp checked).2
  | requestToken | submitToken | storeInvite | pending | setBlobData => exact accepts.elim

/-- The time that is reported is the one stored with the session. -/
theorem reports_mtime (invariant : TableInvariant st.maindb) {sid : ℕ} {session : ValidationSessionT}
    (has : worldOf st.maindb .validationSession sid = some session) : Reports st sid session.mtime := by
  intro data session' env usable
  obtain rfl : session = session' := Option.some.inj (has.symm.trans usable.has)
  have gives : Gives ((MasterRequest.getValidated3pid data).read st env) st.maincounter
      ⟨none, fun _ => .ok (.getValidated3pid { data with valresult :=
        { medium := session.medium, address := session.address, validatedAt := session.mtime } })⟩
      st.maincounter := by
    simp only [MasterRequest.read, getValidated3pidAction, gives_bind, gives_lift, gives_pure]
    exact ⟨_, _, ⟨session, _, ⟨(checkSession_eq_ok_iff invariant).mpr ⟨sid, usable⟩, rfl⟩, rfl, rfl⟩, rfl, rfl⟩
  rw [serve_eq_of_gives gives]
  exact ⟨_, rfl, rfl⟩

theorem Reports.eq (invariant : TableInvariant st.maindb) {sid : ℕ} {validatedAt : UInt64}
    (reports : Reports st sid validatedAt) {subtok : SubmitTokenT} {session : ValidationSessionT}
    (usable : Usable (worldOf st.maindb) subtok sid session) : validatedAt = session.mtime := by
  obtain ⟨reply, answered, reported⟩ := reports { subtok := subtok } session { currtime := 0, commit := { now := 0 } } usable
  obtain ⟨reply', answered', reported'⟩ := reports_mtime invariant usable.has { subtok := subtok } session
    { currtime := 0, commit := { now := 0 } } usable
  cases answered.symm.trans answered'
  exact reported.symm.trans reported'

/-- What a request does to a session, with what happened to it. -/
inductive SessionEvent (st : SharedTable) (label : ServeStep) (sid : ℕ) :
    Option ValidationSessionT → Option ValidationSessionT → Prop
  | unchanged (session : Option ValidationSessionT) (notReopened : ¬ Reopens st label sid)
      (again : Validates st label sid → ∃ stored, session = some stored ∧ stored.validated ≠ 0) :
      SessionEvent st label sid session session
  | created {session : ValidationSessionT} (fresh : session.validated = 0) (notValidated : ¬ Validates st label sid) :
      SessionEvent st label sid none (some session)
  | reopened {session : ValidationSessionT} (reopens : Reopens st label sid) (notValidated : ¬ Validates st label sid)
      (late : sessionValidLifetime < label.2.currtime - session.mtime) :
      SessionEvent st label sid (some session) (some { session with mtime := label.2.currtime })
  | validated {session : ValidationSessionT} (validates : Validates st label sid) (fresh : session.validated = 0) :
      SessionEvent st label sid (some session) (some { session with validated := 1, mtime := label.2.currtime })

theorem Validates.isSubmit {label : ServeStep} {sid : ℕ} (validates : Validates st label sid) :
    ∃ data, label.1 = .submitToken data := by
  obtain ⟨data, _, isSubmit, _⟩ := validates
  exact ⟨data, isSubmit⟩

theorem Reopens.not_validates {label : ServeStep} {sid : ℕ} (reopens : Reopens st label sid) :
    ¬ Validates st label sid := by
  intro validates
  obtain ⟨data, isSubmit⟩ := validates.isSubmit
  obtain ⟨data', _, isRequest, _⟩ := reopens
  rw [isSubmit] at isRequest
  contradiction

/-- Opening a session again writes its time. -/
theorem Reopens.changes {label : ServeStep} {sid : ℕ} (reopens : Reopens st label sid) :
    worldOf (serveStep st label).maindb .validationSession sid ≠ worldOf st.maindb .validationSession sid := by
  obtain ⟨data, session, _, has, late, after⟩ := reopens
  intro same
  rw [same, has] at after
  have written : session.mtime = label.2.currtime := congrArg ValidationSessionT.mtime (Option.some.inj after)
  rw [written, UInt64.sub_self] at late
  exact absurd late (by decide)

theorem serve_session_event (invariant : TableInvariant st.maindb) (label : ServeStep) (sid : ℕ) :
    SessionEvent st label sid (worldOf st.maindb .validationSession sid)
      (worldOf (serveStep st label).maindb .validationSession sid) := by
  obtain ⟨request, env⟩ := label
  have step := serve_session invariant request env sid
  change SessionStep _ _ _ _ _ _ (worldOf (serveStep st (request, env)).maindb .validationSession sid) at step
  generalize before : worldOf st.maindb .validationSession sid = old,
    after : worldOf (serveStep st (request, env)).maindb .validationSession sid = new at step
  cases step with
  | unchanged =>
    refine .unchanged _ (fun reopens => reopens.changes (after.trans before.symm)) fun validates => ?_
    obtain ⟨session, stored, validated⟩ := validates.stored invariant
    exact ⟨session, after.symm.trans stored, validated⟩
  | @reopened data session late =>
    have reopens : Reopens st (.requestToken data, env) sid := ⟨data, session, rfl, before, late, after⟩
    exact .reopened reopens reopens.not_validates late
  | created isNext populated =>
    refine .created rfl fun validates => ?_
    obtain ⟨data, isSubmit⟩ := validates.isSubmit
    contradiction
  | @validated data session submitted fresh logged written =>
    exact .validated ((validates_iff invariant).mpr ⟨data, session, rfl, submitted, fun _ => ⟨logged, written⟩⟩) fresh

end Step

section Clock

theorem ClockRuns.le {labels : List ServeStep} {now : UInt64} (clock : ClockRuns labels now) {i j : ℕ}
    {earlier later : ServeStep} (first : labels[i]? = some earlier) (second : labels[j]? = some later) (order : i ≤ j) :
    earlier.2.currtime ≤ later.2.currtime := by
  rcases Nat.lt_or_eq_of_le order with before | rfl
  · obtain ⟨boundFirst, rfl⟩ := List.getElem?_eq_some_iff.mp first
    obtain ⟨boundSecond, rfl⟩ := List.getElem?_eq_some_iff.mp second
    exact List.pairwise_iff_getElem.mp clock.inOrder i j boundFirst boundSecond before
  · obtain rfl := Option.some.inj (first.symm.trans second)
    exact UInt64.le_refl _

theorem ClockRuns.of_append {past : List ServeStep} {label : ServeStep} {now : UInt64}
    (clock : ClockRuns (past ++ [label]) now) : ClockRuns past label.2.currtime := by
  have order := List.pairwise_append.mp clock.inOrder
  exact ⟨order.1, fun earlier member => order.2.2 earlier member label (List.mem_singleton_self _)⟩

theorem sub_le_sub_right {a b c : UInt64} (ab : a ≤ b) (bc : b ≤ c) : c - b ≤ c - a := by
  rw [UInt64.le_iff_toNat_le] at *
  rw [UInt64.toNat_sub_of_le _ _ (UInt64.le_iff_toNat_le.mpr bc),
    UInt64.toNat_sub_of_le _ _ (UInt64.le_iff_toNat_le.mpr (ab.trans bc))]
  omega

theorem sub_le_sub_left {a b c : UInt64} (ab : a ≤ b) (bc : b ≤ c) : b - a ≤ c - a := by
  rw [UInt64.le_iff_toNat_le] at *
  rw [UInt64.toNat_sub_of_le _ _ (UInt64.le_iff_toNat_le.mpr ab),
    UInt64.toNat_sub_of_le _ _ (UInt64.le_iff_toNat_le.mpr (ab.trans bc))]
  omega

end Clock

/-- What a session tells about the run so far. -/
inductive SessionPast (start : SharedTable) (past : List ServeStep) (sid : ℕ) : Option ValidationSessionT → Prop
  | notYet {session : Option ValidationSessionT}
      (fresh : ∀ stored, session = some stored → stored.validated = 0)
      (never : ∀ j, ¬ Run.Occurs serveStep (fun st label => Validates st label sid) start past j) :
      SessionPast start past sid session
  | first {session : ValidationSessionT} (valid : session.validated ≠ 0) (j : ℕ)
      (submitted : Run.Occurs serveStep (At Validates sid session.mtime) start past j)
      (isFirst : ∀ i, Run.Occurs serveStep (fun st label => Validates st label sid) start past i → j ≤ i)
      (kept : ∀ k, j < k → ¬ Run.Occurs serveStep (fun st label => Reopens st label sid) start past k) :
      SessionPast start past sid (some session)
  | reopened {session : ValidationSessionT} (valid : session.validated ≠ 0) (j r : ℕ) (time : UInt64)
      (submitted : Run.Occurs serveStep (At Validates sid time) start past j)
      (opened : Run.Occurs serveStep (At Reopens sid session.mtime) start past r)
      (isLast : ∀ k, r < k → ¬ Run.Occurs serveStep (fun st label => Reopens st label sid) start past k)
      (order : time ≤ session.mtime) (late : sessionValidLifetime < session.mtime - time) :
      SessionPast start past sid (some session)

section Past

variable {start : SharedTable} {past : List ServeStep} {sid : ℕ} {label : ServeStep}

theorem occurs_le {event : SharedTable → ServeStep → ℕ → Prop} {time now : UInt64} {j : ℕ} (clock : ClockRuns past now)
    (occurs : Run.Occurs serveStep (At event sid time) start past j) : time ≤ now := by
  obtain ⟨earlier, here, _, rfl⟩ := occurs
  exact clock.before earlier (List.mem_of_getElem? here)

/-- A step has one time. -/
theorem occurs_time_unique {event event' : SharedTable → ServeStep → ℕ → Prop} {time time' : UInt64} {j : ℕ}
    (occurs : Run.Occurs serveStep (At event sid time) start past j)
    (occurs' : Run.Occurs serveStep (At event' sid time') start past j) : time = time' := by
  obtain ⟨label, here, _, rfl⟩ := occurs
  obtain ⟨label', here', _, rfl⟩ := occurs'
  obtain rfl := Option.some.inj (here.symm.trans here')
  rfl

/-- Times are in the order of their steps. -/
theorem occurs_time_le {event event' : SharedTable → ServeStep → ℕ → Prop} {time time' now : UInt64} {i j : ℕ}
    (clock : ClockRuns past now) (occurs : Run.Occurs serveStep (At event sid time) start past i)
    (occurs' : Run.Occurs serveStep (At event' sid time') start past j) (order : i ≤ j) : time ≤ time' := by
  obtain ⟨label, here, _, rfl⟩ := occurs
  obtain ⟨label', here', _, rfl⟩ := occurs'
  exact clock.le here here' order

/-- One more step keeps the account of the session. -/
theorem SessionPast.step {before after : Option ValidationSessionT} (clock : ClockRuns past label.2.currtime)
    (known : SessionPast start past sid before)
    (event : SessionEvent (Run.final serveStep start past) label sid before after) :
    SessionPast start (past ++ [label]) sid after := by
  cases event with
  | unchanged session notReopened again =>
    cases known with
    | notYet fresh never =>
      refine .notYet fresh fun j occurs => ?_
      rcases occurs.cases_append with earlier | ⟨_, here⟩
      · exact never j earlier
      · obtain ⟨stored, isStored, validated⟩ := again here
        exact validated (fresh stored isStored)
    | first valid j submitted isFirst kept =>
      refine .first valid j (submitted.append [label]) (fun i occurs => ?_) (Run.not_occurs_append kept notReopened)
      rcases occurs.cases_append with earlier | ⟨rfl, _⟩
      · exact isFirst i earlier
      · exact Nat.le_of_lt submitted.lt
    | reopened valid j r time submitted opened isLast order late =>
      exact .reopened valid j r time (submitted.append [label]) (opened.append [label])
        (Run.not_occurs_append isLast notReopened) order late
  | created fresh notValidated =>
    cases known with
    | notYet _ never =>
      refine .notYet (fun stored isStored => Option.some.inj isStored ▸ fresh) fun j occurs => ?_
      rcases occurs.cases_append with earlier | ⟨_, here⟩
      · exact never j earlier
      · exact notValidated here
  | @reopened session reopens notValidated late =>
    have here : Run.Occurs serveStep (At Reopens sid label.2.currtime) start (past ++ [label]) past.length :=
      Run.occurs_last.mpr ⟨reopens, rfl⟩
    have isLast (k : ℕ) (later : past.length < k) :
        ¬ Run.Occurs serveStep (fun st label => Reopens st label sid) start (past ++ [label]) k := by
      intro occurs
      have bound := occurs.lt
      rw [List.length_append, List.length_singleton] at bound
      omega
    cases known with
    | notYet fresh never =>
      refine .notYet (fun stored isStored => ?_) fun j occurs => ?_
      · obtain rfl := Option.some.inj isStored
        exact fresh session rfl
      · rcases occurs.cases_append with earlier | ⟨_, here⟩
        · exact never j earlier
        · exact notValidated here
    | first valid j submitted isFirst kept =>
      exact .reopened valid j past.length session.mtime (submitted.append [label]) here isLast
        (occurs_le clock submitted) late
    | reopened valid j r time submitted opened _ order _ =>
      -- the new time is even further from the submission than from the last opening
      have opens := occurs_le clock opened
      exact .reopened valid j past.length time (submitted.append [label]) here isLast (UInt64.le_trans order opens)
        (UInt64.lt_of_lt_of_le late (sub_le_sub_right order opens))
  | @validated session validates fresh =>
    cases known with
    | notYet _ never =>
      refine .first Nat.one_ne_zero past.length (Run.occurs_last.mpr ⟨validates, rfl⟩) (fun i occurs => ?_)
        fun k later occurs => ?_
      · rcases occurs.cases_append with earlier | ⟨rfl, _⟩
        · exact (never i earlier).elim
        · exact le_rfl
      · have bound := occurs.lt
        rw [List.length_append, List.length_singleton] at bound
        omega
    | first valid => exact (valid fresh).elim
    | reopened valid => exact (valid fresh).elim

end Past

/-- After every run on an empty store the session tells what happened to it. -/
theorem EmptyStore.sessionPast {start : SharedTable} (empty : EmptyStore start) (sid : ℕ) {labels : List ServeStep}
    {now : UInt64} (clock : ClockRuns labels now) :
    SessionPast start labels sid
      (worldOf (Run.final serveStep start labels).maindb .validationSession sid) := by
  refine @Run.history _ _ serveStep (fun past st => ∀ now, ClockRuns past now →
    SessionPast start past sid (worldOf st.maindb .validationSession sid)) start ?_
    (fun past label known now clock => ?_) labels now clock
  · intro now _
    rw [empty.world_eq]
    exact .notYet (fun stored isStored => nomatch isStored) fun j occurs => absurd occurs.lt (Nat.not_lt_zero j)
  · have before := clock.of_append
    exact (known _ before).step before (serve_session_event (empty.run_consistent past).invariant label sid)

/-- In every run of requests on an empty store whose clock never goes back: a use of a session rests on a
submission that is not longer ago than a validation lasts, exactly if no submission that succeeded is
longer ago than that, or if the session was submitted again at once when it was last opened again. -/
theorem accepted_backed_iff {start : SharedTable} (empty : EmptyStore start) {labels : List ServeStep}
    {label : ServeStep} (clock : ClockRuns labels label.2.currtime) {sid : ℕ}
    (accepts : Accepts (Run.final serveStep start labels) label sid) :
    Backed start labels sid label.2.currtime ↔
      Recent start labels sid label.2.currtime ∨ Renewed start labels sid label.2.currtime := by
  have invariant := (empty.run_consistent labels).invariant
  obtain ⟨subtok, session, usable⟩ := accepts.usable invariant
  have reports := reports_mtime invariant usable.has
  have known := empty.sessionPast sid clock
  rw [usable.has] at known
  cases known with
  | notYet fresh => exact (usable.validated (fresh session rfl)).elim
  | first valid j submitted isFirst kept =>
    have elapsed {i : ℕ} {time : UInt64} (occurs : Run.Occurs serveStep (At Validates sid time) start labels i) :
        session.mtime ≤ time :=
      occurs_time_le clock submitted occurs (isFirst i (occurs.imp fun _ _ => And.left))
    constructor
    · rintro ⟨_, validatedAt, _, within, _, reported⟩
      obtain rfl := reported.eq invariant usable
      exact .inl fun i time occurs =>
        UInt64.le_trans (sub_le_sub_right (elapsed occurs) (occurs_le clock occurs)) within
    · rintro (recent | ⟨r, i, time, order, opened, again, isLast, within⟩)
      · exact ⟨j, session.mtime, submitted, recent j session.mtime submitted, kept, reports⟩
      · -- the session was opened again before its first submission, in the same millisecond
        have same : session.mtime = time := by
          have openedAt := opened.imp fun _ _ => And.left
          have before : r ≤ j := Nat.le_of_not_lt fun later => kept r later openedAt
          exact UInt64.le_antisymm (elapsed again) (occurs_time_le clock opened submitted before)
        rw [← same] at within
        exact ⟨j, session.mtime, submitted, within, kept, reports⟩
  | reopened valid j r time submitted opened isLast order late =>
    constructor
    · rintro ⟨i, validatedAt, again, within, kept, reported⟩
      obtain rfl := reported.eq invariant usable
      have openedAt := opened.imp fun _ _ => And.left
      have after : r < i := by
        rcases Nat.lt_trichotomy r i with before | rfl | later
        · exact before
        · obtain ⟨opening, isOpening, reopens, _⟩ := opened
          obtain ⟨submitting, isSubmitting, validates, _⟩ := again
          obtain rfl := Option.some.inj (isOpening.symm.trans isSubmitting)
          exact (reopens.not_validates validates).elim
        · exact (kept r later openedAt).elim
      exact .inr ⟨r, i, session.mtime, after, opened, again, isLast, within⟩
    · rintro (recent | ⟨r', i, time', after, opened', again, isLast', within⟩)
      · -- the first submission is too long ago
        have within := recent j time submitted
        have longer := sub_le_sub_left order (occurs_le clock opened)
        exact (UInt64.not_lt.mpr within (UInt64.lt_of_lt_of_le late longer)).elim
      · have openedAt := opened.imp fun _ _ => And.left
        have openedAt' := opened'.imp fun _ _ => And.left
        obtain rfl : r' = r := Nat.le_antisymm (Nat.le_of_not_lt fun later => isLast r' later openedAt')
          (Nat.le_of_not_lt fun later => isLast' r later openedAt)
        obtain rfl := occurs_time_unique opened' opened
        exact ⟨i, session.mtime, again, within, fun k later occurs => isLast k (after.trans later) occurs, reports⟩

/-- A session is opened, and validated a millisecond later. -/
def validateOnce : List ServeStep :=
  [(tokenRequest "a@x.com" "q" 1, { currtime := 1000000, commit := { now := 1000000 } }),
    (.submitToken { subtok := { sid := ascii "2", clientSecret := ascii "q", token := ascii "111111" } },
      { currtime := 1000001, commit := { now := 1000001 } })]

/-- What was validated is asked for at some time. -/
def askAt (currtime : UInt64) : ServeStep :=
  (.getValidated3pid { subtok := { sid := ascii "2", clientSecret := ascii "q" } },
    { currtime := currtime, commit := { now := currtime } })

def validatedOnce : ValidationSessionT where
  id := 2
  medium := ascii "email"
  address := ascii "a@x.com"
  clientSecret := ascii "q"
  validated := 1
  mtime := 1000001

theorem accepted_backed_iff_validateOnce :
    Backed emptyMaster validateOnce 2 1000005 ↔
      Recent emptyMaster validateOnce 2 1000005 ∨ Renewed emptyMaster validateOnce 2 1000005 :=
  @accepted_backed_iff _ emptyStore_emptyMaster validateOnce (askAt 1000005) ⟨by decide, by decide⟩ 2
    ⟨by decide, validatedOnce, by decide +kernel⟩

/-- A session is still accepted when its validation is longer ago than a validation lasts. -/
theorem staleSession_accepted : EmptyStore emptyMaster ∧ ClockRuns validateOnce 260200002 ∧
    Accepts (Run.final serveStep emptyMaster validateOnce) (askAt 260200002) 2 ∧
    ¬ Backed emptyMaster validateOnce 2 260200002 := by
  refine ⟨rfl, ⟨by decide, by decide⟩, ⟨by decide, validatedOnce, by decide +kernel⟩, ?_⟩
  rintro ⟨j, validatedAt, ⟨label, here, _, rfl⟩, within, _⟩
  have tooLong : ∀ label ∈ validateOnce, ¬ 260200002 - label.2.currtime ≤ sessionValidLifetime := by decide
  exact tooLong label (List.mem_of_getElem? here) within

end Identt.Hrpc
