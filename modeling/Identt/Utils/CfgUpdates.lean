import Identt.Utils.CfgFileOptions

/-! # Updating the configuration

`Update` inserts, for the lines of the file as well as afterwards, so the first value of a section and a name stays.
Section and name are joined by a colon that may be in either of them, so an update can also show under another
section and name.
-/

namespace Identt.Utils

namespace CfgFileOptions

/-- A call of `Update`. -/
structure UpdateCall where
  inSection : Bytes
  name : Bytes
  value : Bytes

def updateAll (cfg : CfgFileOptions) (calls : List UpdateCall) : CfgFileOptions :=
  calls.foldl (fun cfg call => cfg.update call.inSection call.name call.value) cfg

/-- `Check`. -/
def check (cfg : CfgFileOptions) (inSection name : Bytes) (fuel : ℕ) : Option Bool :=
  (find some cfg inSection name false fuel).map fun
    | .ok _ => true
    | .error _ => false

/-- What `main` does with the option for the master. -/
def setMaster (cfg : CfgFileOptions) (flagsMaster : Bytes) (fuel : ℕ) : Option CfgFileOptions :=
  (cfg.check (ascii "system") (ascii "master") fuel).map fun present =>
    if !(present && flagsMaster.isEmpty) then cfg.update (ascii "system") (ascii "master") flagsMaster else cfg

/-- `Find` for a text ends with the result. -/
def Returns (cfg : CfgFileOptions) (inSection name : Bytes) (result : Except ConfigException Bytes) : Prop :=
  ∃ fuel, find some cfg inSection name false fuel = some result

/-- The value of the latest call for a section and a name. -/
def latest (calls : List UpdateCall) (inSection name : Bytes) : Option Bytes :=
  (calls.reverse.find? fun call => call.inSection = inSection ∧ call.name = name).map UpdateCall.value

/-- The name is updated in a section that is inherited. -/
def InheritsUpdated (cfg : CfgFileOptions) (calls : List UpdateCall) (inSection name : Bytes) : Prop :=
  ∃ inherited, Chain.Reaches cfg.inheritMap.get? inSection inherited ∧ (latest calls inherited name).isSome

/-- What is updated is found as it was updated last, and everything else as before, except through inheritance. -/
structure Overrides (cfg : CfgFileOptions) (calls : List UpdateCall) : Prop where
  updated : ∀ inSection name value, latest calls inSection name = some value →
    (cfg.updateAll calls).Returns inSection name (.ok value)
  others : ∀ inSection name, latest calls inSection name = none → ¬ cfg.InheritsUpdated calls inSection name →
    ∀ result, cfg.Returns inSection name result ↔ (cfg.updateAll calls).Returns inSection name result

/-- The value that stays for a key: that of the file, or of the first call for the key. -/
def firstValue (cfg : CfgFileOptions) (calls : List UpdateCall) (key : Bytes) : Option Bytes :=
  (cfg.sectionMap.get? key).or ((calls.find? fun call => makeKey call.inSection call.name = key).map UpdateCall.value)

/-- The value that stays is the latest one, and whatever else has the key of a call, without being updated by itself
or through inheritance, has been found with that value before. -/
structure FirstIsLatest (cfg : CfgFileOptions) (calls : List UpdateCall) : Prop where
  updated : ∀ inSection name value, latest calls inSection name = some value →
    cfg.firstValue calls (makeKey inSection name) = some value
  others : ∀ inSection name value, latest calls inSection name = none → ¬ cfg.InheritsUpdated calls inSection name →
    (∃ call ∈ calls, makeKey call.inSection call.name = makeKey inSection name) →
    cfg.firstValue calls (makeKey inSection name) = some value → cfg.Returns inSection name (.ok value)

section Updates

variable {cfg : CfgFileOptions} {calls : List UpdateCall} {inSection name : Bytes}

theorem get?_insertNew (m : OrderedMap Bytes Bytes) (key value k : Bytes) :
    (insertNew m key value).get? k = (m.get? k).or (if k = key then some value else none) := by
  rw [insertNew]
  cases has : m.get? key with
  | some old =>
    by_cases same : k = key
    · rw [same, has, Option.some_or]
    · rw [if_neg same, Option.or_none]
  | none =>
    dsimp only
    rw [OrderedMap.get?_put]
    by_cases same : k = key
    · rw [if_pos same, if_pos same, same, has, Option.none_or]
    · rw [if_neg same, if_neg same, Option.or_none]

/-- Calls leave the inherited sections as they are. -/
theorem updateAll_inheritMap (cfg : CfgFileOptions) (calls : List UpdateCall) :
    (cfg.updateAll calls).inheritMap = cfg.inheritMap := by
  induction calls generalizing cfg with
  | nil => rfl
  | cons call rest ih => exact ih _

theorem updateAll_get? (cfg : CfgFileOptions) (calls : List UpdateCall) (key : Bytes) :
    (cfg.updateAll calls).sectionMap.get? key = cfg.firstValue calls key := by
  induction calls generalizing cfg with
  | nil => rw [firstValue, List.find?_nil, Option.map_none, Option.or_none]; rfl
  | cons call rest ih =>
    have first : (cfg.update call.inSection call.name call.value).sectionMap.get? key =
        (cfg.sectionMap.get? key).or (if key = makeKey call.inSection call.name then some call.value else none) :=
      get?_insertNew _ _ _ _
    refine (ih _).trans ?_
    rw [firstValue, firstValue, first, Option.or_assoc, List.find?_cons]
    by_cases same : makeKey call.inSection call.name = key
    · rw [if_pos same.symm]
      simp [same]
    · rw [if_neg (Ne.symm same)]
      simp [same]

/-- What is found is what the search comes to. -/
theorem returns_iff {result : Except ConfigException Bytes} : cfg.Returns inSection name result ↔
    ∃ found, Chain.Follows cfg.inheritMap.get? (cfg.entry name) (some inSection) found ∧
      outcome some name false found = result := exists_find_iff

theorem returns_ok_iff {value : Bytes} : cfg.Returns inSection name (.ok value) ↔
    Chain.Follows cfg.inheritMap.get? (cfg.entry name) (some inSection) (some value) := by
  rw [returns_iff]
  constructor
  · rintro ⟨found, follows, same⟩
    cases found with
    | none => cases same
    | some other =>
      cases same
      exact follows
  · exact fun follows => ⟨some value, follows, rfl⟩

/-- An entry that the file has stays. -/
theorem entry_updateAll_of_some {value : Bytes} (has : cfg.entry name inSection = some value) :
    (cfg.updateAll calls).entry name inSection = some value := by
  rw [entry, updateAll_get?, firstValue, ← entry, has, Option.some_or]

/-- A new entry is that of a call. -/
theorem exists_call (absent : cfg.entry name inSection = none)
    {value : Bytes} (added : (cfg.updateAll calls).entry name inSection = some value) :
    (∃ call ∈ calls, makeKey call.inSection call.name = makeKey inSection name) ∧
      cfg.firstValue calls (makeKey inSection name) = some value := by
  rw [entry, updateAll_get?] at added
  refine ⟨?_, added⟩
  rw [firstValue, ← entry, absent, Option.none_or] at added
  obtain ⟨call, first, -⟩ := Option.map_eq_some_iff.mp added
  exact ⟨call, List.mem_of_find?_eq_some first, by simpa using List.find?_some first⟩

/-- Neither updated nor inheriting from what is. -/
def Apart (cfg : CfgFileOptions) (calls : List UpdateCall) (name inSection : Bytes) : Prop :=
  latest calls inSection name = none ∧ ¬ cfg.InheritsUpdated calls inSection name

theorem Apart.next (apart : cfg.Apart calls name inSection) {inherited : Bytes}
    (inherits : cfg.inheritMap.get? inSection = some inherited) : cfg.Apart calls name inherited := by
  constructor
  · by_contra updated
    exact apart.2 ⟨inherited, .single inherits, Option.isSome_iff_ne_none.mpr updated⟩
  · rintro ⟨further, reached, updated⟩
    exact apart.2 ⟨further, .head inherits reached, updated⟩

/-- A search that no update is meant for comes to the same. -/
theorem FirstIsLatest.follows_iff (firstIsLatest : cfg.FirstIsLatest calls) (apart : cfg.Apart calls name inSection)
    {found : Option Bytes} :
    Chain.Follows cfg.inheritMap.get? (cfg.entry name) (some inSection) found ↔
      Chain.Follows cfg.inheritMap.get? ((cfg.updateAll calls).entry name) (some inSection) found := by
  have before {inSection value : Bytes} (apart : cfg.Apart calls name inSection)
      (absent : cfg.entry name inSection = none) (added : (cfg.updateAll calls).entry name inSection = some value) :
      Chain.Follows cfg.inheritMap.get? (cfg.entry name) (some inSection) (some value) := by
    obtain ⟨collides, first⟩ := exists_call absent added
    exact returns_ok_iff.mp (firstIsLatest.others inSection name value apart.1 apart.2 collides first)
  generalize start : some inSection = place
  have all : ∀ inSection, place = some inSection → cfg.Apart calls name inSection := by
    rintro other rfl
    exact Option.some.inj start ▸ apart
  clear start apart
  constructor
  · intro follows
    induction follows with
    | stop => exact .stop
    | found here => exact .found (entry_updateAll_of_some here)
    | @on inSection found absent later ih =>
      cases added : (cfg.updateAll calls).entry name inSection with
      | none => exact .on added (ih fun inherited inherits => (all inSection rfl).next inherits)
      | some value =>
        rw [(Chain.Follows.on absent later).unique (before (all inSection rfl) absent added)]
        exact .found added
  · intro follows
    induction follows with
    | stop => exact .stop
    | @found inSection value added =>
      cases here : cfg.entry name inSection with
      | none => exact before (all inSection rfl) here added
      | some old =>
        rw [← added, entry_updateAll_of_some here]
        exact .found here
    | @on inSection found absent later ih =>
      refine .on ?_ (ih fun inherited inherits => (all inSection rfl).next inherits)
      by_contra has
      obtain ⟨value, here⟩ := Option.ne_none_iff_exists'.mp has
      exact Option.some_ne_none value ((entry_updateAll_of_some here).symm.trans absent)

theorem exists_of_latest {value : Bytes} (updated : latest calls inSection name = some value) :
    ∃ call ∈ calls, makeKey call.inSection call.name = makeKey inSection name := by
  obtain ⟨call, last, -⟩ := Option.map_eq_some_iff.mp updated
  have same : call.inSection = inSection ∧ call.name = name := by simpa using List.find?_some last
  exact ⟨call, List.mem_reverse.mp (List.mem_of_find?_eq_some last), by rw [same.1, same.2]⟩

/-- What an updated entry is found as. -/
theorem returns_firstValue {value : Bytes} (first : cfg.firstValue calls (makeKey inSection name) = some value) :
    (cfg.updateAll calls).Returns inSection name (.ok value) := by
  rw [returns_ok_iff]
  exact .found (by rw [entry, updateAll_get?, first])

theorem firstValue_isSome (called : ∃ call ∈ calls, makeKey call.inSection call.name = makeKey inSection name) :
    ∃ value, cfg.firstValue calls (makeKey inSection name) = some value := by
  obtain ⟨call, member, sameKey⟩ := called
  refine Option.isSome_iff_exists.mp ?_
  rw [firstValue, Option.isSome_or, Option.isSome_map, List.find?_isSome.mpr ⟨call, member, by simpa using sameKey⟩,
    Bool.or_true]

theorem Returns.unique {cfg : CfgFileOptions} {value value' : Bytes} (first : cfg.Returns inSection name (.ok value))
    (second : cfg.Returns inSection name (.ok value')) : value = value' :=
  Option.some.inj ((returns_ok_iff.mp first).unique (returns_ok_iff.mp second))

end Updates

/-- Updates override and disturb nothing else exactly when the values that stay are the latest ones. -/
theorem overrides_iff (cfg : CfgFileOptions) (calls : List UpdateCall) :
    cfg.Overrides calls ↔ cfg.FirstIsLatest calls := by
  constructor
  · intro overrides
    refine ⟨fun inSection name value isLatest => ?_, fun inSection name value notUpdated apart called first => ?_⟩
    · obtain ⟨first, stays⟩ := @firstValue_isSome cfg _ _ _ (exists_of_latest isLatest)
      rw [stays, (returns_firstValue stays).unique (overrides.updated inSection name value isLatest)]
    · exact (overrides.others inSection name notUpdated apart _).mpr (returns_firstValue first)
  · intro firstIsLatest
    refine ⟨fun inSection name value isLatest => ?_, fun inSection name notUpdated apart result => ?_⟩
    · exact returns_firstValue (firstIsLatest.updated inSection name value isLatest)
    · rw [returns_iff, returns_iff, updateAll_inheritMap]
      exact exists_congr fun found => and_congr_left fun _ => firstIsLatest.follows_iff ⟨notUpdated, apart⟩

/-- The option for the master does not override the master of the file. -/
theorem not_overrides_master : ∃ cfg, create (some (ascii "[system]\nmaster=a\n")) = .ok cfg ∧
    ¬ cfg.Overrides [⟨ascii "system", ascii "master", ascii "b"⟩] ∧
    ((cfg.setMaster (ascii "b") 1).bind fun cfg => find some cfg (ascii "system") (ascii "master") false 1) =
      some (.ok (ascii "a")) := by
  have accepted : create (some (ascii "[system]\nmaster=a\n")) = .ok
      { sectionMap := OrderedMap.empty.put (ascii "system:master") (ascii "a")
        inheritMap := OrderedMap.empty.put (ascii "system") [] } := by decide +kernel
  refine ⟨_, accepted, fun overrides => ?_, by decide +kernel⟩
  have updated := overrides.updated (ascii "system") (ascii "master") (ascii "b") (by decide +kernel)
  have first := updated.unique (@returns_firstValue _ _ _ _ (ascii "a") (by decide +kernel))
  exact absurd first (by decide)

end CfgFileOptions

end Identt.Utils
