import Mathlib.Algebra.Order.Ring.Int
import Mathlib.Data.List.Basic

/-! # Documents of JSON

Values as a document tree keeps them: integers that fit one of the 64-bit types, floating-point numbers of
a type left open, strings of any bytes, and objects as the list of their members in order, where a name may
occur more than once. Looking a name up finds its first member.
-/

/-- An integer that fits `int64_t` or `uint64_t`. -/
structure JsonInt where
  val : ℤ
  lower : -2 ^ 63 ≤ val
  upper : val < 2 ^ 64
deriving DecidableEq

namespace JsonInt

@[ext] theorem ext {m n : JsonInt} (same : m.val = n.val) : m = n := by
  cases m
  cases n
  cases same
  rfl

def ofInt32 (n : Int32) : JsonInt where
  val := n.toInt
  lower := by
    have := n.le_toInt
    omega
  upper := by
    have := n.toInt_lt
    omega

def ofInt64 (n : Int64) : JsonInt where
  val := n.toInt
  lower := by
    have := n.le_toInt
    omega
  upper := by
    have := n.toInt_lt
    omega

def ofUInt32 (n : UInt32) : JsonInt where
  val := n.toNat
  lower := by omega
  upper := by
    have := n.toNat_lt
    omega

def ofUInt64 (n : UInt64) : JsonInt where
  val := n.toNat
  lower := by omega
  upper := by
    have := n.toNat_lt
    omega

end JsonInt

inductive Json (D : Type) where
  | null
  | bool (b : Bool)
  | int (n : JsonInt)
  | double (d : D)
  | string (text : List UInt8)
  | array (elems : List (Json D))
  | object (members : List (List UInt8 × Json D))

namespace Json

variable {D : Type}

instance : Inhabited (Json D) := ⟨null⟩

/-- The members of a value that is made an object if it is none. -/
def members : Json D → List (List UInt8 × Json D)
  | object members => members
  | _ => []

/-- The first member of a name in an object. -/
def get? (name : List UInt8) : Json D → Option (Json D)
  | object members => members.lookup name
  | _ => none

/-- The text of a member, empty if there is none. -/
def textOf (name : List UInt8) (json : Json D) : List UInt8 :=
  match json.get? name with
  | some (string text) => text
  | _ => []

/-- Make sure that an object has a member of the name. -/
def create (name : List UInt8) (json : Json D) : Json D :=
  if (json.members.lookup name).isSome then object json.members else object (json.members ++ [(name, null)])

/-- Change the value of the first member of a name. -/
def setMember (name : List UInt8) (json value : Json D) : Json D :=
  match json with
  | object members => object (replace members)
  | json => json
where
  replace : List (List UInt8 × Json D) → List (List UInt8 × Json D)
    | [] => []
    | (other, old) :: rest => if other = name then (other, value) :: rest else (other, old) :: replace rest

/-- Take the first member of a name out of an object, which keeps the others in order. -/
def eraseMember (name : List UInt8) : Json D → Json D
  | object members => object (members.eraseP fun member => member.1 = name)
  | json => json

variable {members : List (List UInt8 × Json D)} {name other : List UInt8} {value : Json D}

theorem get?_object_cons (key : List UInt8) (value : Json D) (rest : List (List UInt8 × Json D)) :
    (object ((key, value) :: rest)).get? name = if key = name then some value else (object rest).get? name := by
  rw [get?, List.lookup_cons]
  by_cases same : key = name
  · simp [same]
  · have differ : (name == key) = false := by simpa using Ne.symm same
    rw [differ, if_neg same]
    rfl

theorem lookup_eq_none (absent : name ∉ members.map Prod.fst) : members.lookup name = none := by
  rw [List.lookup_eq_none_iff]
  intro member inMembers
  have differ : member.1 ≠ name := by
    rintro rfl
    exact absent (List.mem_map_of_mem inMembers)
  simpa using differ.symm

/-- Creating a member makes an object. -/
theorem exists_create (name : List UInt8) (json : Json D) : ∃ members, json.create name = object members := by
  rw [create]
  split <;> exact ⟨_, rfl⟩

theorem get?_of_absent (absent : name ∉ members.map Prod.fst) : (object members).get? name = none :=
  lookup_eq_none absent

theorem get?_append (members rest : List (List UInt8 × Json D)) (name : List UInt8) :
    (object (members ++ rest)).get? name = ((object members).get? name).or ((object rest).get? name) :=
  List.lookup_append

/-- Creating a member leaves every other one as it is. -/
theorem get?_create_of_ne (differ : other ≠ name) (json : Json D) :
    (json.create name).get? other = json.get? other := by
  have added : (object (json.members ++ [(name, null)])).get? other = (object json.members).get? other := by
    rw [get?_append, get?_object_cons, if_neg differ.symm]
    cases (object json.members).get? other <;> rfl
  have members : (object json.members).get? other = json.get? other := by cases json <;> rfl
  rw [create]
  split
  · exact members
  · exact added.trans members

/-- A created member has the value that it had, or is `null`. -/
theorem get?_create (name : List UInt8) (json : Json D) :
    (json.create name).get? name = some ((json.get? name).getD null) := by
  have members : (object json.members).get? name = json.get? name := by cases json <;> rfl
  rw [create]
  split
  · next present =>
    obtain ⟨value, found⟩ := Option.isSome_iff_exists.mp present
    have same : json.get? name = some value := members.symm.trans found
    rw [members, same, Option.getD_some]
  · next absent =>
    have none : json.get? name = none := members.symm.trans (Option.not_isSome_iff_eq_none.mp absent)
    rw [get?_append, members, none, get?_object_cons, if_pos rfl, Option.none_or, Option.getD_none]

theorem get?_setMember_of_ne (differ : other ≠ name) (value json : Json D) :
    (json.setMember name value).get? other = json.get? other := by
  cases json with
  | object members =>
    induction members with
    | nil => rfl
    | cons member rest ih =>
      obtain ⟨key, old⟩ := member
      rw [setMember, setMember.replace, get?_object_cons]
      split
      · next same =>
        subst key
        rw [get?_object_cons, if_neg differ.symm, if_neg differ.symm]
      · rw [get?_object_cons, ← ih]
        rfl
  | null | bool | int | double | string | array => rfl

theorem get?_setMember (value json : Json D) (present : (json.get? name).isSome) :
    (json.setMember name value).get? name = some value := by
  cases json with
  | object members =>
    induction members with
    | nil => cases present
    | cons member rest ih =>
      obtain ⟨key, old⟩ := member
      rw [get?_object_cons] at present
      rw [setMember, setMember.replace]
      split
      · next same => rw [get?_object_cons, if_pos same]
      · next differ =>
        rw [if_neg differ] at present
        rw [get?_object_cons, if_neg differ]
        exact ih present
  | null | bool | int | double | string | array => cases present

theorem eraseMember_of_get?_none (json : Json D) (absent : json.get? name = none) : json.eraseMember name = json := by
  cases json with
  | object members =>
    rw [eraseMember, List.eraseP_of_forall_not]
    intro member inMembers same
    have none := List.lookup_eq_none_iff.mp absent member inMembers
    exact absurd (of_decide_eq_true same).symm (by simpa using none)
  | null | bool | int | double | string | array => rfl

/-- Erasing what was created gives back what was there. -/
theorem eraseMember_create (members : List (List UInt8 × Json D)) (name : List UInt8) :
    ((object members).create name).eraseMember name = (object members).eraseMember name := by
  rw [create]
  split
  · rfl
  · next absent =>
    have none : (object members).get? name = none := Option.not_isSome_iff_eq_none.mp absent
    have others : ∀ member ∈ members, ¬ decide (member.1 = name) = true := by
      intro member inMembers same
      have differ := List.lookup_eq_none_iff.mp none member inMembers
      exact absurd (of_decide_eq_true same).symm (by simpa using differ)
    rw [eraseMember_of_get?_none _ none, eraseMember, Json.members, List.eraseP_append_right _ others]
    simp

theorem eraseMember_setMember (value json : Json D) (name : List UInt8) :
    (json.setMember name value).eraseMember name = json.eraseMember name := by
  cases json with
  | object members =>
    simp only [setMember, eraseMember]
    congr 1
    induction members with
    | nil => rfl
    | cons member rest ih =>
      obtain ⟨key, old⟩ := member
      by_cases same : key = name
      · simp [setMember.replace, same]
      · simp [setMember.replace, same, ih]
  | null | bool | int | double | string | array => rfl

/-- Members of different names are erased and set in any order. -/
theorem eraseMember_setMember_of_ne (differ : other ≠ name) (value json : Json D) :
    (json.setMember name value).eraseMember other = (json.eraseMember other).setMember name value := by
  cases json with
  | object members =>
    simp only [setMember, eraseMember]
    congr 1
    induction members with
    | nil => rfl
    | cons member rest ih =>
      obtain ⟨key, old⟩ := member
      by_cases first : key = name
      · subst key
        simp [setMember.replace, differ.symm]
      · by_cases second : key = other
        · simp [setMember.replace, second, differ]
        · simp [setMember.replace, first, second, ih]
  | null | bool | int | double | string | array => rfl

theorem get?_eraseMember_of_ne (differ : other ≠ name) (json : Json D) :
    (json.eraseMember other).get? name = json.get? name := by
  cases json with
  | object members =>
    induction members with
    | nil => rfl
    | cons member rest ih =>
      obtain ⟨key, old⟩ := member
      by_cases first : key = other
      · subst key
        simp [eraseMember, get?_object_cons, differ]
      · simp only [eraseMember, get?_object_cons] at ih ⊢
        rw [List.eraseP_cons_of_neg (by simpa using first), get?_object_cons, ih]
  | null | bool | int | double | string | array => rfl

theorem eraseMember_create_of_ne (differ : other ≠ name) (members : List (List UInt8 × Json D)) :
    ((object members).create name).eraseMember other = ((object members).eraseMember other).create name := by
  have sides : (members.eraseP fun member => member.1 = other).lookup name = members.lookup name :=
    get?_eraseMember_of_ne differ (object members)
  rw [create, eraseMember, create, Json.members, Json.members, sides]
  split
  · rfl
  · rw [eraseMember, List.eraseP_append]
    split
    · rfl
    · next none =>
      have same : members.eraseP (fun member => member.1 = other) = members := by
        rw [List.eraseP_of_forall_not]
        intro member inMembers same
        exact none (List.any_eq_true.mpr ⟨member, inMembers, same⟩)
      rw [same, List.eraseP_cons_of_neg (by simpa using differ.symm), List.eraseP_nil]

/-- An object that loses nothing has no member of the name. -/
theorem get?_of_eraseMember_length (unchanged : (members.eraseP fun member => member.1 = name).length = members.length) :
    (object members).get? name = none := by
  apply get?_of_absent
  intro present
  obtain ⟨member, inMembers, same⟩ := List.mem_map.mp present
  have length := List.length_eraseP_of_mem inMembers (p := fun member => member.1 = name) (by simpa using same)
  have positive := List.length_pos_of_mem inMembers
  omega

/-- An object from which two names are erased without a loss has no member of the second. -/
theorem get?_of_eraseMember_eraseMember
    (same : ((object members).eraseMember name).eraseMember other = object members) :
    (object members).get? other = none := by
  simp only [eraseMember, object.injEq] at same
  have outer := (List.eraseP_sublist (p := fun member => member.1 = other)
    (l := members.eraseP fun member => member.1 = name)).length_le
  have inner := (List.eraseP_sublist (p := fun member => member.1 = name) (l := members)).length_le
  have length := congrArg List.length same
  have kept : members.eraseP (fun member => member.1 = name) = members :=
    List.eraseP_sublist.eq_of_length (by omega)
  rw [kept] at same
  exact get?_of_eraseMember_length (congrArg List.length same)

end Json
