import Identt.Proto.Query
import Identt.Query.ProtoJsonSigned
import Identt.Store.StoreTrans

/-! # What the services of the master share

An action reads the database of the moment, takes identifiers from the counter and builds at most one
transaction; then it commits the transaction as the master and answers. The two halves are kept
apart, since nothing keeps another request from committing in between. What the environment decides
for a request (the clock, random keys, signatures, whether the writes succeed) is a parameter.
-/

namespace Identt.Store

open StoreTrans

/-- `THREEPID_SESSION_VALID_LIFETIME_MS`. -/
def sessionValidLifetime : UInt64 := 3 * 24 * 60 * 60 * 1000

/-- The first half of an action, as a function of the counter. The identifiers taken are not given
back when it throws. -/
structure ReadM (α : Type) where
  run : ℕ → Except Exn α × ℕ
  grows : ∀ counter, counter ≤ (run counter).2

namespace ReadM

variable {α β : Type}

instance : Monad ReadM where
  pure a := ⟨fun counter => (.ok a, counter), fun _ => le_rfl⟩
  bind first next :=
    { run := fun counter =>
        match first.run counter with
        | (.ok a, counter) => (next a).run counter
        | (.error e, counter) => (.error e, counter)
      grows := fun counter => by
        have start := first.grows counter
        split
        · next a counter' ran =>
          rw [ran] at start
          exact start.trans ((next a).grows counter')
        · next e counter' ran =>
          rw [ran] at start
          exact start }

/-- What is read, or thrown, without the counter. -/
instance : MonadLift (Except Exn) ReadM where
  monadLift result := ⟨fun counter => (result, counter), fun _ => le_rfl⟩

/-- `maincounter.GetNext()`. -/
def getNext : ReadM ℕ := ⟨fun counter => (.ok (counter + 1), counter + 1), fun counter => by simp⟩

/-- The computation ends well with a value, and leaves the counter at `counter'`. -/
def Gives (read : ReadM α) (counter : ℕ) (a : α) (counter' : ℕ) : Prop :=
  read.run counter = (.ok a, counter')

theorem Gives.grows {read : ReadM α} {counter counter' : ℕ} {a : α} (gives : Gives read counter a counter') :
    counter ≤ counter' := by
  have grows := read.grows counter
  rwa [gives] at grows

@[simp] theorem gives_pure {a b : α} {counter counter' : ℕ} :
    Gives (pure a) counter b counter' ↔ a = b ∧ counter = counter' := by
  simp [Gives, pure]

@[simp] theorem gives_lift {result : Except Exn α} {a : α} {counter counter' : ℕ} :
    Gives (liftM result) counter a counter' ↔ result = .ok a ∧ counter = counter' := by
  simp [Gives, liftM, monadLift, MonadLift.monadLift]

@[simp] theorem gives_getNext {n counter counter' : ℕ} :
    Gives getNext counter n counter' ↔ n = counter + 1 ∧ counter' = counter + 1 := by
  simp [Gives, getNext, eq_comm]

@[simp] theorem gives_bind {first : ReadM α} {next : α → ReadM β} {b : β} {counter counter' : ℕ} :
    Gives (first >>= next) counter b counter' ↔
      ∃ a middle, Gives first counter a middle ∧ Gives (next a) middle b counter' := by
  simp only [Gives, bind]
  cases ran : first.run counter with
  | mk result middle =>
    cases result with
    | error e => simp
    | ok a =>
      constructor
      · intro gives
        exact ⟨a, middle, rfl, gives⟩
      · rintro ⟨_, _, ⟨⟩, gives⟩
        exact gives

/-- The computation does not throw. -/
def Succeeds (read : ReadM α) (counter : ℕ) : Prop := ∃ a counter', Gives read counter a counter'

@[simp] theorem succeeds_pure (a : α) (counter : ℕ) : Succeeds (pure a) counter := ⟨a, counter, rfl⟩

theorem succeeds_bind {first : ReadM α} {next : α → ReadM β} {a : α} {counter middle : ℕ}
    (gives : Gives first counter a middle) (rest : Succeeds (next a) middle) :
    Succeeds (first >>= next) counter := by
  obtain ⟨b, counter', gives'⟩ := rest
  exact ⟨b, counter', gives_bind.mpr ⟨a, middle, gives, gives'⟩⟩

theorem succeeds_lift_bind {result : Except Exn α} {next : α → ReadM β} {a : α} {counter : ℕ}
    (passed : result = .ok a) (rest : Succeeds (next a) counter) : Succeeds (liftM result >>= next) counter :=
  succeeds_bind (gives_lift.mpr ⟨passed, rfl⟩) rest

/-- The computation throws. -/
def Throws (read : ReadM α) (counter : ℕ) (e : Exn) : Prop := (read.run counter).1 = .error e

theorem throws_lift_bind {result : Except Exn α} {next : α → ReadM β} {e : Exn} {counter : ℕ}
    (failed : result = .error e) : Throws (liftM result >>= next) counter e := by
  rw [failed]
  rfl

theorem Throws.bind {first : ReadM α} {next : α → ReadM β} {e : Exn} {counter : ℕ} (throws : Throws first counter e) :
    Throws (first >>= next) counter e := by
  simp only [Throws, Bind.bind]
  cases ran : first.run counter with
  | mk result middle =>
    rw [Throws, ran] at throws
    rw [show result = .error e from throws]

end ReadM

/-- Throw unless a check succeeds. -/
def require (check : Prop) [Decidable check] (e : Exn) : Except Exn Unit := if check then .ok () else .error e

@[simp] theorem require_eq_ok {check : Prop} [Decidable check] {e : Exn} {u : Unit} :
    require check e = .ok u ↔ check := by
  unfold require
  split <;> simp [*]

/-- The identifier of a record that was found, or the next one for a new record. -/
def takeId (found : Bool) (id : ℕ) : ReadM ℕ := if found then pure id else ReadM.getNext

/-- `AddRecord`, and what the services throw when it refuses. -/
def StoreTable.insert {T : Type} [Inhabited T] (table : StoreTable T) (db : DB) (record : T)
    (transaction : TransactionT) (upsert : Bool) (refusal : String) : Except Exn TransactionT := do
  let (accepted, transaction) ← table.addRecord db record transaction upsert
  if accepted then return transaction else throw (.badData refusal)

/-- What the first half of an action leaves for the second: the transaction to commit, if there is
one, and the answer, which may look at the database after the commit. -/
structure Prepared (α : Type) where
  trans : Option TransactionT
  reply : DB → Except Exn α

def Prepared.map {α β : Type} (f : α → β) (prepared : Prepared α) : Prepared β :=
  { trans := prepared.trans, reply := fun db => (prepared.reply db).map f }

/-- The second half of an action. -/
def finish {α : Type} (env : CommitEnv) (st : SharedTable) (prepared : Prepared α) :
    Except Exn α × SharedTable :=
  match prepared.trans with
  | none => (prepared.reply st.maindb, st)
  | some transaction =>
    match commit env st transaction true with
    | (.ok (), st) => (prepared.reply st.maindb, st)
    | (.error e, st) => (.error e, st)

/-- An action that runs on its own. -/
def runAction {α : Type} (env : CommitEnv) (st : SharedTable) (read : ReadM (Prepared α)) :
    Except Exn α × SharedTable :=
  match read.run st.maincounter with
  | (.ok prepared, counter) => finish env { st with maincounter := counter } prepared
  | (.error e, counter) => (.error e, { st with maincounter := counter })

structure ActionEnv where
  /-- `IDENTT_CURRTIME_MS` as the action reads it. -/
  currtime : UInt64
  commit : CommitEnv
  /-- `sole::uuid4().str()`. -/
  uuid : Bytes := []
  /-- The pair of keys that `CryptoTraits::Create` makes. -/
  publicKey : Bytes := []
  secretKey : Bytes := []
  /-- `AddSign` for an owner and an association, with the signatures that it leaves. -/
  signAssoc : Bytes → GlobalAssocT → Except Exn (Bytes × Query.SignatureListT) := fun _ _ => .ok ([], [])
  /-- `AddSign` for an owner and the notification of a binding, with each invite signed, behind those signatures. -/
  signInvites : Bytes → Query.SignatureListT → Query.ValidatedInviteT → Except Exn Bytes := fun _ _ _ => .ok []

end Identt.Store
