import Mathlib.Data.Nat.Notation
import Mathlib.Logic.Relation

/-! # Searching along a chain

A partial function takes each place to the next one, and a search goes on from place to place until it finds
something or there is no next place. With fuel it is a function; `Follows` is what it comes to when the fuel lasts,
and it lasts for every search when the chain ends.
-/

namespace Chain

variable {α β : Type} (next : α → Option α) (test : α → Option β)

/-- The search with as many rounds as there is fuel; `none` when the fuel gives out. -/
def follow : ℕ → Option α → Option (Option β)
  | _, none => some none
  | 0, some _ => none
  | fuel + 1, some a =>
    match test a with
    | some b => some (some b)
    | none => follow fuel (next a)

inductive Follows : Option α → Option β → Prop
  | stop : Follows none none
  | found {a : α} {b : β} (here : test a = some b) : Follows (some a) (some b)
  | on {a : α} {found : Option β} (absent : test a = none) (later : Follows (next a) found) : Follows (some a) found

/-- There is an end to the places. -/
inductive Ends : Option α → Prop
  | stop : Ends none
  | on {a : α} (later : Ends (next a)) : Ends (some a)

/-- What is reached after one or more rounds. -/
def Reaches : α → α → Prop := Relation.TransGen fun a b => next a = some b

variable {next test}

theorem Follows.unique {place : Option α} {found found' : Option β} (first : Follows next test place found)
    (second : Follows next test place found') : found = found' := by
  induction first with
  | stop => cases second; rfl
  | found here =>
    cases second with
    | found here' => exact here.symm.trans here'
    | on absent _ => cases absent.symm.trans here
  | on absent _ ih =>
    cases second with
    | found here' => cases absent.symm.trans here'
    | on _ later => exact ih later

/-- Enough fuel gives what the search comes to. -/
theorem exists_follow_iff {place : Option α} {found : Option β} :
    (∃ fuel, follow next test fuel place = some found) ↔ Follows next test place found := by
  constructor
  · rintro ⟨fuel, followed⟩
    induction fuel generalizing place with
    | zero =>
      cases place with
      | none => cases followed; exact .stop
      | some a => cases followed
    | succ fuel ih =>
      cases place with
      | none => cases followed; exact .stop
      | some a =>
        rw [follow] at followed
        cases here : test a with
        | some b =>
          rw [here] at followed
          cases followed
          exact .found here
        | none =>
          rw [here] at followed
          exact .on here (ih followed)
  · intro follows
    induction follows with
    | stop => exact ⟨0, rfl⟩
    | found here => exact ⟨1, by rw [follow, here]⟩
    | on absent _ ih =>
      obtain ⟨fuel, followed⟩ := ih
      exact ⟨fuel + 1, by rw [follow, absent]; exact followed⟩

/-- Every search along a chain that ends comes to something. -/
theorem Ends.follows {place : Option α} (ends : Ends next place) (test : α → Option β) :
    ∃ found, Follows next test place found := by
  induction ends with
  | stop => exact ⟨none, .stop⟩
  | @on a _ ih =>
    cases here : test a with
    | some b => exact ⟨some b, .found here⟩
    | none =>
      obtain ⟨found, follows⟩ := ih
      exact ⟨found, .on here follows⟩

/-- A search with nothing to find comes to something only at an end. -/
theorem Follows.ends {place : Option α} {found : Option β} (follows : Follows next test place found)
    (nothing : ∀ a, test a = none) : Ends next place := by
  induction follows with
  | stop => exact .stop
  | found here => cases (nothing _).symm.trans here
  | on _ _ ih => exact .on ih

/-- Places that go on among themselves have no end. -/
theorem not_ends {S : α → Prop} (closed : ∀ a, S a → ∃ b, next a = some b ∧ S b) {a : α} (inside : S a) :
    ¬ Ends next (some a) := by
  intro ends
  generalize start : some a = place at ends
  induction ends generalizing a with
  | stop => cases start
  | on _ ih =>
    obtain rfl := Option.some.inj start
    obtain ⟨b, here, insideNext⟩ := closed a inside
    exact ih insideNext here.symm

/-- A new place that leads into chains that end, and that none of them came to, leaves all chains with an end. -/
theorem ends_extend {next' : α → Option α} {new : α} (same : ∀ a, a ≠ new → next' a = next a)
    (into : ∀ b, next' new = some b → b ≠ new) (apart : ∀ a b, next a = some b → b ≠ new)
    (ends : ∀ a, Ends next (some a)) (a : α) : Ends next' (some a) := by
  have old {place : Option α} (notNew : ∀ a, place = some a → a ≠ new) (ends : Ends next place) : Ends next' place := by
    induction ends with
    | stop => exact .stop
    | @on a _ ih =>
      refine .on ?_
      rw [same a (notNew a rfl)]
      exact ih fun b here => apart a b here
  by_cases isNew : a = new
  · refine .on ?_
    rw [isNew]
    cases here : next' new with
    | none => exact .stop
    | some b => exact old (fun c inside => Option.some.inj inside ▸ into b here) (ends b)
  · exact old (fun b inside => Option.some.inj inside ▸ isNew) (ends a)

end Chain
