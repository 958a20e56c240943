import Mathlib.Data.List.TakeWhile
import Identt.Lib.OrderedMap

/-! # Scans by leading text

Keys that are lists compare lexicographically, so those that begin with a given list are next to each
other: an iterator that starts at the list and stops at the first key that does not begin with it
visits exactly the keys that do.
-/

section Order

variable {α : Type} [LinearOrder α]

/-- Lists of one length decide the order of whatever is appended to them. -/
theorem append_lt_append_of_lt {a b : List α} (length : a.length = b.length) (less : a < b) (x y : List α) :
    a ++ x < b ++ y := by
  induction a generalizing b with
  | nil =>
    obtain rfl := List.length_eq_zero_iff.mp length.symm
    exact (lt_irrefl _ less).elim
  | cons c a ih =>
    cases b with
    | nil => contradiction
    | cons d b =>
      refine List.cons_lt_cons_iff.mpr ((List.cons_lt_cons_iff.mp less).imp id ?_)
      rintro ⟨same, rest⟩
      exact ⟨same, ih (by simpa using length) rest⟩

theorem le_append (a x : List α) : a ≤ a ++ x := by
  induction a with
  | nil => exact not_lt.mp (List.not_lt_nil x)
  | cons c a ih => exact List.cons_le_cons c ih

theorem append_lt_append_iff (a x y : List α) : a ++ x < a ++ y ↔ x < y := by
  induction a with
  | nil => rfl
  | cons c a ih => simp [ih]

/-- What lies between a list and a list that begins with it begins with it too. -/
theorem isPrefix_of_between {front low high : List α} (notBelow : ¬ low < front) (less : low < high)
    (begins : front <+: high) : front <+: low := by
  induction front generalizing low high with
  | nil => exact List.nil_prefix
  | cons c front ih =>
    obtain ⟨rest, rfl⟩ := begins
    rw [List.cons_append] at less
    cases low with
    | nil => exact (notBelow (List.nil_lt_cons _ _)).elim
    | cons d low =>
      simp only [List.cons_lt_cons_iff, not_or, not_and] at notBelow less
      have same : d = c := by
        rcases less with lower | ⟨same, _⟩
        · exact (notBelow.1 lower).elim
        · exact same
      subst same
      refine List.cons_prefix_cons.mpr ⟨rfl, ih (notBelow.2 rfl) ?_ (List.prefix_append front rest)⟩
      rcases less with lower | ⟨_, lower⟩
      · exact (lt_irrefl _ lower).elim
      · exact lower

end Order

/-- On a sorted list, taking while a downward closed test holds is filtering by it. -/
theorem takeWhile_eq_filter {β : Type} {before : β → β → Prop} {test : β → Bool} {l : List β}
    (sorted : l.Pairwise before) (closed : ∀ a ∈ l, ∀ b ∈ l, before a b → test b → test a) :
    l.takeWhile test = l.filter test := by
  induction l with
  | nil => rfl
  | cons a rest ih =>
    obtain ⟨first, sortedRest⟩ := List.pairwise_cons.mp sorted
    have tail := ih sortedRest fun b inB c inC =>
      closed b (List.mem_cons_of_mem _ inB) c (List.mem_cons_of_mem _ inC)
    cases passes : test a with
    | true => rw [List.takeWhile_cons_of_pos passes, List.filter_cons_of_pos passes, tail]
    | false =>
      rw [List.takeWhile_cons_of_neg (by simp [passes]), List.filter_cons_of_neg (by simp [passes]), eq_comm,
        List.filter_eq_nil_iff]
      intro b inB later
      have fails := closed a (List.mem_cons_self ..) b (List.mem_cons_of_mem _ inB) (first b inB) later
      rw [passes] at fails
      contradiction

/-- What a function finds in each element of a list. -/
theorem map_eq_map_some {α β : Type} {f : α → Option β} {l : List α} (all : ∀ a ∈ l, (f a).isSome) :
    l.map f = (l.filterMap f).map some := by
  induction l with
  | nil => rfl
  | cons a rest ih =>
    obtain ⟨b, found⟩ := Option.isSome_iff_exists.mp (all a (List.mem_cons_self ..))
    rw [List.filterMap_cons_some found, List.map_cons, List.map_cons, found,
      ih fun later member => all later (List.mem_cons_of_mem _ member)]

namespace OrderedMap

variable {α ν : Type} [LinearOrder α]

/-- What an iterator visits from a list on, as long as the keys begin with it. -/
def scan (m : OrderedMap (List α) ν) (front : List α) : List (List α × ν) :=
  (m.seek front).takeWhile fun entry => front.isPrefixOf entry.1

theorem scan_eq_filter (m : OrderedMap (List α) ν) (front : List α) :
    m.scan front = (m.seek front).filter fun entry => front.isPrefixOf entry.1 := by
  apply takeWhile_eq_filter (m.seek_sorted front)
  intro low inLow high _ less begins
  rw [List.isPrefixOf_iff_prefix] at begins ⊢
  exact isPrefix_of_between (mem_seek.mp inLow).2 less begins

theorem mem_scan {m : OrderedMap (List α) ν} {front : List α} {entry : List α × ν} :
    entry ∈ m.scan front ↔ m.get? entry.1 = some entry.2 ∧ front <+: entry.1 := by
  rw [scan_eq_filter, List.mem_filter, mem_seek, List.isPrefixOf_iff_prefix, get?_eq_some_iff]
  constructor
  · exact fun ⟨⟨member, _⟩, begins⟩ => ⟨member, begins⟩
  · rintro ⟨member, begins⟩
    refine ⟨⟨member, ?_⟩, begins⟩
    obtain ⟨rest, same⟩ := begins
    rw [← same]
    exact not_lt.mpr (le_append front rest)

/-- What an iterator visits from a later list on that begins with the front. -/
theorem mem_seek_takeWhile {m : OrderedMap (List α) ν} {front start : List α} (begins : front <+: start)
    {entry : List α × ν} :
    entry ∈ (m.seek start).takeWhile (fun entry => front.isPrefixOf entry.1) ↔
      m.get? entry.1 = some entry.2 ∧ ¬ entry.1 < start ∧ front <+: entry.1 := by
  obtain ⟨rest, rfl⟩ := begins
  rw [takeWhile_eq_filter (m.seek_sorted _), List.mem_filter, mem_seek, List.isPrefixOf_iff_prefix, get?_eq_some_iff,
    and_assoc]
  intro low inLow high _ less beginsHigh
  rw [List.isPrefixOf_iff_prefix] at beginsHigh ⊢
  exact isPrefix_of_between (fun below => (mem_seek.mp inLow).2 (below.trans_le (le_append front rest))) less beginsHigh

theorem scan_sorted (m : OrderedMap (List α) ν) (front : List α) :
    (m.scan front).Pairwise fun a b => a.1 < b.1 :=
  (m.seek_sorted front).sublist (List.takeWhile_sublist _)

end OrderedMap
