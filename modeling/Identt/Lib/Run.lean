import Mathlib.Data.List.Induction
import Mathlib.Data.List.Basic

/-! # Runs of a deterministic labelled system

A run is a list of labels folded over a step function; everything the environment decides is part
of the label. The rules below turn what one step preserves into what every run preserves: plainly,
under a guard that each step of the run meets, and relative to the labels already consumed.
-/

namespace Run

variable {σ α : Type*} (step : σ → α → σ)

/-- The state a run ends in. -/
def final (s : σ) (labels : List α) : σ := labels.foldl step s

@[simp] theorem final_nil (s : σ) : final step s [] = s := rfl

theorem final_append (s : σ) (first second : List α) :
    final step s (first ++ second) = final step (final step s first) second := List.foldl_append

theorem final_concat (s : σ) (labels : List α) (a : α) :
    final step s (labels ++ [a]) = step (final step s labels) a := by
  rw [final_append]
  rfl

variable {step}

theorem final_take_succ {s : σ} {labels : List α} {i : ℕ} {a : α} (here : labels[i]? = some a) :
    final step s (labels.take (i + 1)) = step (final step s (labels.take i)) a := by
  have bound := (List.getElem?_eq_some_iff.mp here).1
  rw [List.take_succ_eq_append_getElem bound, (List.getElem?_eq_some_iff.mp here).2, final_concat]

theorem final_take_of_none {s : σ} {labels : List α} {i : ℕ} (done : labels[i]? = none) :
    final step s (labels.take (i + 1)) = final step s (labels.take i) := by
  have short := List.getElem?_eq_none_iff.mp done
  rw [List.take_of_length_le (Nat.le_succ_of_le short), List.take_of_length_le short]

/-- What every step preserves holds at the end of every run. -/
theorem invariant {Inv : σ → Prop} (preserved : ∀ s a, Inv s → Inv (step s a)) {s : σ}
    (start : Inv s) (labels : List α) : Inv (final step s labels) := by
  induction labels generalizing s with
  | nil => exact start
  | cons a rest ih => exact ih (preserved s a start)

/-- A property of the past labels and the present state, carried along a run. -/
theorem history {Inv : List α → σ → Prop} {s : σ} (start : Inv [] s)
    (preserved : ∀ past a, Inv past (final step s past) →
      Inv (past ++ [a]) (step (final step s past) a)) (labels : List α) :
    Inv labels (final step s labels) := by
  induction labels using List.reverseRecOn with
  | nil => exact start
  | append_singleton past a ih =>
    rw [final_concat]
    exact preserved past a ih

/-- The label at a position of the run does something in the state it is consumed in. -/
def Occurs (step : σ → α → σ) (P : σ → α → Prop) (s : σ) (labels : List α) (i : ℕ) : Prop :=
  ∃ a, labels[i]? = some a ∧ P (final step s (labels.take i)) a

theorem Occurs.lt {P : σ → α → Prop} {s : σ} {labels : List α} {i : ℕ} (occurs : Occurs step P s labels i) :
    i < labels.length := by
  obtain ⟨a, here, _⟩ := occurs
  exact (List.getElem?_eq_some_iff.mp here).1

/-- What happened stays so when the run goes on. -/
theorem Occurs.append {P : σ → α → Prop} {s : σ} {labels : List α} {i : ℕ} (occurs : Occurs step P s labels i)
    (more : List α) : Occurs step P s (labels ++ more) i := by
  have earlier := occurs.lt
  obtain ⟨a, here, holds⟩ := occurs
  refine ⟨a, by rwa [List.getElem?_append_left earlier], ?_⟩
  rwa [List.take_append_of_le_length (Nat.le_of_lt earlier)]

theorem occurs_last {P : σ → α → Prop} {s : σ} {labels : List α} {a : α} :
    Occurs step P s (labels ++ [a]) labels.length ↔ P (final step s labels) a := by
  simp [Occurs]

/-- An event of a longer run is an event of the run before its last step, or that step. -/
theorem Occurs.cases_append {P : σ → α → Prop} {s : σ} {labels : List α} {a : α} {i : ℕ}
    (occurs : Occurs step P s (labels ++ [a]) i) :
    Occurs step P s labels i ∨ (i = labels.length ∧ P (final step s labels) a) := by
  have bound := occurs.lt
  rw [List.length_append, List.length_singleton] at bound
  rcases Nat.lt_succ_iff_lt_or_eq.mp bound with earlier | rfl
  · obtain ⟨b, here, holds⟩ := occurs
    rw [List.getElem?_append_left earlier] at here
    rw [List.take_append_of_le_length (Nat.le_of_lt earlier)] at holds
    exact .inl ⟨b, here, holds⟩
  · exact .inr ⟨rfl, occurs_last.mp occurs⟩

theorem Occurs.imp {P Q : σ → α → Prop} (weaken : ∀ s a, P s a → Q s a) {s : σ} {labels : List α} {i : ℕ}
    (occurs : Occurs step P s labels i) : Occurs step Q s labels i := by
  obtain ⟨a, here, holds⟩ := occurs
  exact ⟨a, here, weaken _ a holds⟩

/-- What did not happen after some position does not happen later, if the next step is not it. -/
theorem not_occurs_append {P : σ → α → Prop} {s : σ} {labels : List α} {a : α} {j : ℕ}
    (never : ∀ k, j < k → ¬ Occurs step P s labels k) (other : ¬ P (final step s labels) a) (k : ℕ) (after : j < k) :
    ¬ Occurs step P s (labels ++ [a]) k := by
  intro occurs
  rcases occurs.cases_append with earlier | ⟨_, here⟩
  · exact never k after earlier
  · exact other here

/-- The last event of a kind in the run was the given one. -/
def Latest {γ : Type*} (step : σ → α → σ) (P : γ → σ → α → Prop) (s : σ) (labels : List α) (x : γ) : Prop :=
  ∃ j, Occurs step (P x) s labels j ∧ ∀ k, j < k → ∀ y, ¬ Occurs step (P y) s labels k

section Latest

variable {γ : Type*} {P : γ → σ → α → Prop} {s : σ}

theorem not_latest_nil (x : γ) : ¬ Latest step P s [] x := fun ⟨_, occurs, _⟩ => Nat.not_lt_zero _ occurs.lt

/-- One more step is the last event of its kind, or leaves the last one as it was. -/
theorem latest_concat {labels : List α} {a : α} {x : γ} : Latest step P s (labels ++ [a]) x ↔
    P x (final step s labels) a ∨ (∀ y, ¬ P y (final step s labels) a) ∧ Latest step P s labels x := by
  constructor
  · rintro ⟨j, occurs, never⟩
    rcases occurs.cases_append with earlier | ⟨_, here⟩
    · exact .inr ⟨fun y isLast => never _ earlier.lt y (occurs_last.mpr isLast), j, earlier,
        fun k after y later => never k after y (later.append [a])⟩
    · exact .inl here
  · rintro (here | ⟨other, j, earlier, never⟩)
    · refine ⟨labels.length, occurs_last.mpr here, fun k after y later => ?_⟩
      have bound := later.lt
      rw [List.length_append, List.length_singleton] at bound
      omega
    · exact ⟨j, earlier.append [a], fun k after y =>
        not_occurs_append (fun k after => never k after y) (other y) k after⟩

/-- An event stays the last one while no other of its kind follows. -/
theorem latest_append {labels : List α} {a : α} {x : γ} (here : P x (final step s labels) a) {later : List α}
    (never : ∀ y j, ¬ Occurs step (P y) (step (final step s labels) a) later j) :
    Latest step P s (labels ++ a :: later) x := by
  induction later using List.reverseRecOn with
  | nil => exact latest_concat.mpr (.inl here)
  | append_singleton later b ih =>
    have joined : labels ++ a :: (later ++ [b]) = (labels ++ a :: later) ++ [b] := by simp
    have ends : final step s (labels ++ a :: later) = final step (step (final step s labels) a) later :=
      final_append ..
    rw [joined, latest_concat, ends]
    exact .inr ⟨fun y last => never y _ (occurs_last.mpr last), ih fun y j earlier => never y j (earlier.append [b])⟩

/-- Where there was an event of a kind, one was the last. -/
theorem exists_latest {labels : List α} {x : γ} {j : ℕ} (occurs : Occurs step (P x) s labels j) :
    ∃ y, Latest step P s labels y := by
  induction labels using List.reverseRecOn with
  | nil => exact (Nat.not_lt_zero _ occurs.lt).elim
  | append_singleton labels a ih =>
    by_cases isLast : ∃ y, P y (final step s labels) a
    · obtain ⟨y, here⟩ := isLast
      exact ⟨y, latest_concat.mpr (.inl here)⟩
    · have other := not_exists.mp isLast
      rcases occurs.cases_append with earlier | ⟨_, here⟩
      · obtain ⟨y, latest⟩ := ih earlier
        exact ⟨y, latest_concat.mpr (.inr ⟨other, latest⟩)⟩
      · exact (other x here).elim

end Latest

/-- Every label of the run meets the guard in the state it is consumed in. -/
def Guarded (step : σ → α → σ) (Guard : σ → α → Prop) (s : σ) (labels : List α) : Prop :=
  ∀ i a, labels[i]? = some a → Guard (final step s (labels.take i)) a

theorem guarded_cons {Guard : σ → α → Prop} {s : σ} {a : α} {rest : List α} :
    Guarded step Guard s (a :: rest) ↔ Guard s a ∧ Guarded step Guard (step s a) rest := by
  constructor
  · intro guarded
    exact ⟨guarded 0 a rfl, fun i b here => guarded (i + 1) b here⟩
  · rintro ⟨head, tail⟩ i b here
    cases i with
    | zero => cases here; exact head
    | succ i => exact tail i b here

theorem guarded_concat {Guard : σ → α → Prop} {s : σ} {labels : List α} {a : α} :
    Guarded step Guard s (labels ++ [a]) ↔ Guarded step Guard s labels ∧ Guard (final step s labels) a := by
  constructor
  · intro guarded
    refine ⟨fun i b here => ?_, ?_⟩
    · have earlier := (List.getElem?_eq_some_iff.mp here).1
      have guard := guarded i b (by rwa [List.getElem?_append_left earlier])
      rwa [List.take_append_of_le_length (Nat.le_of_lt earlier)] at guard
    · have guard := guarded labels.length a (by simp)
      rwa [List.take_left] at guard
  · rintro ⟨past, last⟩ i b here
    have bound := (List.getElem?_eq_some_iff.mp here).1
    rw [List.length_append, List.length_singleton] at bound
    rcases Nat.lt_succ_iff_lt_or_eq.mp bound with earlier | rfl
    · rw [List.getElem?_append_left earlier] at here
      rw [List.take_append_of_le_length (Nat.le_of_lt earlier)]
      exact past i b here
    · rw [List.getElem?_append_right (Nat.le_refl _), Nat.sub_self] at here
      obtain rfl := Option.some.inj here
      rwa [List.take_left]

/-- A beginning of a guarded run is guarded. -/
theorem Guarded.take {Guard : σ → α → Prop} {s : σ} {labels : List α} (guarded : Guarded step Guard s labels) (n : ℕ) :
    Guarded step Guard s (labels.take n) := by
  intro i a here
  rw [List.getElem?_take] at here
  split at here
  · next earlier =>
    rw [List.take_take, Nat.min_eq_left (Nat.le_of_lt earlier)]
    exact guarded i a here
  · contradiction

/-- A property of the past labels and the present state that guarded steps carry along. -/
theorem history_of_guarded {Inv : List α → σ → Prop} {Guard : σ → α → Prop} {s : σ} (start : Inv [] s)
    (preserved : ∀ past a, Inv past (final step s past) → Guard (final step s past) a →
      Inv (past ++ [a]) (step (final step s past) a)) {labels : List α} (guarded : Guarded step Guard s labels) :
    Inv labels (final step s labels) := by
  induction labels using List.reverseRecOn with
  | nil => exact start
  | append_singleton past a ih =>
    obtain ⟨before, last⟩ := guarded_concat.mp guarded
    rw [final_concat]
    exact preserved past a (ih before) last

/-- What guarded steps preserve holds in every state of a run whose steps all meet the guard. -/
theorem invariant_of_guarded {Inv : σ → Prop} {Guard : σ → α → Prop}
    (preserved : ∀ s a, Inv s → Guard s a → Inv (step s a)) {s : σ} (start : Inv s)
    {labels : List α} (guarded : Guarded step Guard s labels) (i : ℕ) :
    Inv (final step s (labels.take i)) := by
  induction labels generalizing s i with
  | nil => simpa using start
  | cons a rest ih =>
    obtain ⟨head, tail⟩ := guarded_cons.mp guarded
    cases i with
    | zero => exact start
    | succ i => exact ih (preserved s a start head) tail i

theorem take_succ_of_getElem? {labels : List α} {i : ℕ} {a : α} (here : labels[i]? = some a) :
    labels.take (i + 1) = labels.take i ++ [a] := by
  rw [List.take_add_one, here, Option.toList_some]

/-- If a guard is exact for one step of a property of what was consumed so far, given a stronger one that
guarded steps keep, all beginnings of a run have the property exactly when all its steps meet the guard: the
first step that does not leaves it. -/
theorem prefixes_iff_guarded {Weak Strong : List α → Prop} {Guard : σ → α → Prop} {s : σ}
    (weaken : ∀ past, Strong past → Weak past)
    (exact : ∀ past a, Strong past → (Weak (past ++ [a]) ↔ Guard (final step s past) a))
    (keeps : ∀ past a, Strong past → Guard (final step s past) a → Strong (past ++ [a]))
    (start : Strong []) {labels : List α} :
    (∀ i, Weak (labels.take i)) ↔ Guarded step Guard s labels := by
  -- the stronger property holds of every beginning, if one step of the weak one gives the guard
  have strong (guards : ∀ i a, labels[i]? = some a → Strong (labels.take i) → Guard (final step s (labels.take i)) a)
      (i : ℕ) : Strong (labels.take i) := by
    induction i with
    | zero => exact start
    | succ i ih =>
      cases here : labels[i]? with
      | none =>
        have done := List.getElem?_eq_none_iff.mp here
        rwa [List.take_of_length_le (by omega), ← List.take_of_length_le done]
      | some a =>
        rw [take_succ_of_getElem? here]
        exact keeps _ a ih (guards i a here ih)
  constructor
  · intro throughout
    have guards (i : ℕ) (a : α) (here : labels[i]? = some a) (before : Strong (labels.take i)) :
        Guard (final step s (labels.take i)) a := by
      have next := throughout (i + 1)
      rw [take_succ_of_getElem? here] at next
      exact (exact _ a before).mp next
    exact fun i a here => guards i a here (strong guards i)
  · intro guarded i
    exact weaken _ (strong (fun i a here _ => guarded i a here) i)

/-- The same for a property of the present state alone. -/
theorem weak_iff_guarded {Weak Strong : σ → Prop} {Guard : σ → α → Prop} (weaken : ∀ s, Strong s → Weak s)
    (exact : ∀ s a, Strong s → (Weak (step s a) ↔ Guard s a))
    (keeps : ∀ s a, Strong s → Guard s a → Strong (step s a)) {s : σ} (start : Strong s) {labels : List α} :
    (∀ i, Weak (final step s (labels.take i))) ↔ Guarded step Guard s labels := by
  refine @prefixes_iff_guarded _ _ step (fun past => Weak (final step s past)) (fun past => Strong (final step s past))
    Guard s (fun past => weaken _) (fun past a strong => ?_) (fun past a strong guard => ?_) start labels
  · rw [final_concat]
    exact exact _ a strong
  · rw [final_concat]
    exact keeps _ a strong guard

/-- The same where every step of the run is of some kind to begin with. -/
theorem weak_iff_guarded_of {Weak Strong : σ → Prop} {Side Guard : σ → α → Prop} (weaken : ∀ s, Strong s → Weak s)
    (exact : ∀ s a, Strong s → Side s a → (Weak (step s a) ↔ Guard s a))
    (keeps : ∀ s a, Strong s → Side s a → Guard s a → Strong (step s a)) {s : σ} (start : Strong s)
    {labels : List α} (sides : Guarded step Side s labels) :
    (∀ i, Weak (final step s (labels.take i))) ↔ Guarded step Guard s labels := by
  induction labels generalizing s with
  | nil =>
    constructor
    · intro _ i a here
      rw [List.getElem?_nil] at here
      contradiction
    · intro _ i
      rw [List.take_nil]
      exact weaken s start
  | cons a rest ih =>
    obtain ⟨side, later⟩ := guarded_cons.mp sides
    rw [guarded_cons]
    constructor
    · intro throughout
      have guard := (exact s a start side).mp (throughout 1)
      exact ⟨guard, (ih (keeps s a start side guard) later).mp fun i => throughout (i + 1)⟩
    · rintro ⟨guard, guarded⟩ i
      cases i with
      | zero => exact weaken s start
      | succ i => exact (ih (keeps s a start side guard) later).mpr guarded i

end Run
