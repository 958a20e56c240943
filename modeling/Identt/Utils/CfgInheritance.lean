import Mathlib.Algebra.Order.BigOperators.Group.List
import Identt.Utils.CfgFileOptions

/-! # Which searches of the configuration end

A section inherits the blank section or one that stands above it, so the searches end if no section is blank. But a
header may leave its name out, and then every section leads back to the blank one, for ever.
-/

namespace Identt.Utils

namespace CfgFileOptions

/-- The line is the header of a section. -/
def IsHeader (line : Bytes) : Prop := (trim line).head? = some 91

/-- Sections are added one by one, and inherit the blank one or one that is there. -/
inductive Built : OrderedMap Bytes Bytes → Prop
  | empty : Built .empty
  | header {m : OrderedMap Bytes Bytes} {inSection inHerits : Bytes} (before : Built m) (fresh : m.get? inSection = none)
      (known : inHerits = [] ∨ (m.get? inHerits).isSome) : Built (m.put inSection inHerits)

section Sections

variable {m : OrderedMap Bytes Bytes}

theorem Built.known (built : Built m) {inSection inHerits : Bytes} (inherits : m.get? inSection = some inHerits) :
    inHerits = [] ∨ (m.get? inHerits).isSome := by
  have keep {m : OrderedMap Bytes Bytes} {key : Bytes} (new value : Bytes) (has : (m.get? key).isSome) :
      ((m.put new value).get? key).isSome := by
    rw [OrderedMap.get?_put]
    split <;> simp [has]
  induction built with
  | empty => cases inherits
  | header before fresh known ih =>
    rw [OrderedMap.get?_put] at inherits
    split at inherits
    · cases inherits
      exact known.imp_right (keep _ _)
    · exact (ih inherits).imp_right (keep _ _)

/-- Without a blank section there is an end everywhere. -/
theorem Built.ends (built : Built m) (noBlank : m.get? [] = none) (inSection : Bytes) :
    Chain.Ends m.get? (some inSection) := by
  induction built generalizing inSection with
  | empty => exact .on .stop
  | @header m new inHerits before fresh known ih =>
    rw [OrderedMap.get?_put] at noBlank
    split at noBlank
    · cases noBlank
    · next notBlank =>
      have differ {parent : Bytes} (known : parent = [] ∨ (m.get? parent).isSome) : parent ≠ new := by
        rintro rfl
        rcases known with rfl | present
        · exact notBlank rfl
        · rw [fresh] at present
          cases present
      refine @Chain.ends_extend _ m.get? _ new ?_ ?_ ?_ (fun a => ih noBlank a) inSection
      · exact fun other notNew => OrderedMap.get?_put_of_ne m inHerits notNew
      · intro parent inherits
        rw [OrderedMap.get?_put_self] at inherits
        cases inherits
        exact differ known
      · exact fun other parent inherits => differ (before.known inherits)

/-- With a blank section there is no end to its chain. -/
theorem Built.not_ends (built : Built m) (blank : (m.get? []).isSome) : ¬ Chain.Ends m.get? (some []) := by
  refine Chain.not_ends (S := fun inSection => (m.get? inSection).isSome) (fun inSection has => ?_) blank
  obtain ⟨inHerits, inherits⟩ := Option.isSome_iff_exists.mp has
  refine ⟨inHerits, inherits, ?_⟩
  rcases built.known inherits with rfl | present
  · exact blank
  · exact present

end Sections

section Read

variable {reading reading' : Reading} {line : Bytes}

theorem readHeader_eq_ok (read : readHeader reading line = .ok reading') :
    reading.cfg.inheritMap.get? (headerSection line) = none ∧
      ∃ inHerits, (inHerits = [] ∨ (reading.cfg.inheritMap.get? inHerits).isSome) ∧
        reading'.cfg.inheritMap = reading.cfg.inheritMap.put (headerSection line) inHerits := by
  simp only [readHeader] at read
  split_ifs at read with _ duplicate colon invalid
  all_goals
    have fresh : reading.cfg.inheritMap.get? (headerSection line) = none := by simpa using duplicate
    cases read
    refine ⟨fresh, _, ?_, by rw [insertNew, fresh]⟩
  · exact .inr (Option.isSome_iff_ne_none.mpr fun none => invalid ⟨colon, none⟩)
  · exact .inl rfl

/-- What a line does to the sections: a header adds one, and other lines none. -/
theorem readLine_inheritMap (read : readLine reading line = .ok reading') :
    (IsHeader line ∧ reading.cfg.inheritMap.get? (headerSection (trim line)) = none ∧
      ∃ inHerits, (inHerits = [] ∨ (reading.cfg.inheritMap.get? inHerits).isSome) ∧
        reading'.cfg.inheritMap = reading.cfg.inheritMap.put (headerSection (trim line)) inHerits) ∨
    (¬ IsHeader line ∧ reading'.cfg.inheritMap = reading.cfg.inheritMap) := by
  simp only [readLine] at read
  by_cases skipped : trim line = [] ∨ (trim line).head? = some 35 ∨ (trim line).head? = some 59
  · rw [if_pos skipped] at read
    cases read
    refine .inr ⟨fun header => ?_, rfl⟩
    rw [IsHeader] at header
    rcases skipped with blank | hash | semicolon
    · rw [blank] at header
      cases header
    · cases hash.symm.trans header
    · cases semicolon.symm.trans header
  rw [if_neg skipped] at read
  by_cases header : (trim line).head? = some 91
  · rw [if_pos header] at read
    exact .inl ⟨header, readHeader_eq_ok read⟩
  · rw [if_neg header, readEntry] at read
    split at read
    · cases read
    · cases read
      exact .inr ⟨header, rfl⟩

/-- After all lines the sections are built, and there is a blank one just if a header left its name out. -/
theorem foldlM_readLine {lines : List Bytes} (read : lines.foldlM readLine reading = .ok reading')
    (built : Built reading.cfg.inheritMap) :
    Built reading'.cfg.inheritMap ∧ ((reading'.cfg.inheritMap.get? []).isSome ↔
      (reading.cfg.inheritMap.get? []).isSome ∨ ∃ line ∈ lines, IsHeader line ∧ headerSection (trim line) = []) := by
  induction lines generalizing reading with
  | nil =>
    cases read
    exact ⟨built, by simp⟩
  | cons line rest ih =>
    rw [List.foldlM_cons] at read
    obtain ⟨next, first, later⟩ := bind_eq_ok.mp read
    rcases readLine_inheritMap first with ⟨header, fresh, inHerits, known, added⟩ | ⟨noHeader, same⟩
    · obtain ⟨builtAll, blank⟩ := ih later (added ▸ .header built fresh known)
      refine ⟨builtAll, blank.trans ?_⟩
      rw [added, OrderedMap.get?_put]
      by_cases noName : [] = headerSection (trim line)
      · simp [noName.symm, header]
      · simp [noName, Ne.symm noName]
    · obtain ⟨builtAll, blank⟩ := ih later (same.symm ▸ built)
      refine ⟨builtAll, blank.trans ?_⟩
      simp [same, noHeader]

end Read

/-- Some name is defined nowhere. -/
theorem exists_undefined (cfg : CfgFileOptions) : ∃ name, ∀ inSection, cfg.entry name inSection = none := by
  let lengths := cfg.sectionMap.entries.map fun entry => entry.1.length
  refine ⟨List.replicate (lengths.sum + 1) 0, fun inSection => ?_⟩
  cases has : cfg.entry (List.replicate (lengths.sum + 1) 0) inSection with
  | none => rfl
  | some value =>
    have member := OrderedMap.get?_eq_some_iff.mp has
    have bound : (makeKey inSection (List.replicate (lengths.sum + 1) 0)).length ≤ lengths.sum :=
      List.le_sum_of_mem (List.mem_map.mpr ⟨_, member, rfl⟩)
    rw [makeKey, List.length_append, List.length_replicate] at bound
    omega

/-- Every search in a file that is accepted ends exactly when no header leaves out the name of its section. -/
theorem find_ends_iff {T : Type} [Inhabited T] (lexicalCast : Bytes → Option T) (noThrow : Bool) {text : Bytes}
    {cfg : CfgFileOptions} (accepted : create (some text) = .ok cfg) :
    (∀ inSection name, ∃ fuel result, find lexicalCast cfg inSection name noThrow fuel = some result) ↔
      ∀ line ∈ getLines text, IsHeader line → headerSection (trim line) ≠ [] := by
  obtain ⟨reading, read, same⟩ := bind_eq_ok.mp accepted
  obtain rfl := Except.ok.inj same
  obtain ⟨built, blank⟩ := foldlM_readLine read .empty
  have noBlank : (reading.cfg.inheritMap.get? [] = none) ↔
      ∀ line ∈ getLines text, IsHeader line → headerSection (trim line) ≠ [] := by
    rw [← Option.not_isSome_iff_eq_none, blank]
    simp [OrderedMap.get?_empty]
  rw [← noBlank]
  constructor
  · intro ends
    by_contra present
    obtain ⟨name, undefined⟩ := exists_undefined reading.cfg
    obtain ⟨fuel, result, ended⟩ := ends [] name
    obtain ⟨found, follows, -⟩ := exists_find_iff.mp ⟨fuel, ended⟩
    exact built.not_ends (Option.isSome_iff_ne_none.mpr present) (follows.ends undefined)
  · intro absent inSection name
    obtain ⟨found, follows⟩ := (built.ends absent inSection).follows (reading.cfg.entry name)
    obtain ⟨fuel, ended⟩ := (@exists_find_iff T _ lexicalCast _ inSection name noThrow _).mpr ⟨found, follows, rfl⟩
    exact ⟨fuel, _, ended⟩

/-- What is read of a file with one section. -/
def oneSection : CfgFileOptions where
  sectionMap := OrderedMap.empty.put (ascii "system:master") (ascii "a")
  inheritMap := OrderedMap.empty.put (ascii "system") []

theorem find_ends_oneSection : create (some (ascii "[system]\nmaster=a\n")) = .ok oneSection ∧
    ∀ inSection name, ∃ fuel result, find some oneSection inSection name false fuel = some result := by
  have accepted : create (some (ascii "[system]\nmaster=a\n")) = .ok oneSection := by decide +kernel
  have lines : getLines (ascii "[system]\nmaster=a\n") = [ascii "[system]", ascii "master=a"] := by decide +kernel
  refine ⟨accepted, (find_ends_iff some false accepted).mpr ?_⟩
  rw [lines, List.forall_mem_cons, List.forall_mem_singleton]
  exact ⟨fun _ => by decide +kernel, fun header => absurd header (by unfold IsHeader; decide +kernel)⟩

/-- A header without a name is accepted, and then the search for a name that is not there goes on for ever. -/
theorem find_never_ends : ∃ cfg, create (some (ascii "[]\n[system]\n")) = .ok cfg ∧
    ∀ fuel, find some cfg (ascii "system") (ascii "master") false fuel = none := by
  have accepted : create (some (ascii "[]\n[system]\n")) =
      .ok { inheritMap := (OrderedMap.empty.put [] []).put (ascii "system") [] } := by decide +kernel
  refine ⟨_, accepted, fun fuel => ?_⟩
  cases ended : find some _ (ascii "system") (ascii "master") false fuel with
  | none => rfl
  | some result =>
    obtain ⟨found, follows, -⟩ := exists_find_iff.mp ⟨fuel, ended⟩
    have ends := follows.ends fun _ => rfl
    have parent : ((OrderedMap.empty.put [] []).put (ascii "system") []).get? (ascii "system") = some ([] : Bytes) := by
      decide +kernel
    have blank : ((OrderedMap.empty.put [] []).put (ascii "system") []).get? [] = some ([] : Bytes) := by decide +kernel
    cases ends with
    | on later =>
      rw [parent] at later
      exact (Chain.not_ends (S := fun place => place = []) (fun _ same => ⟨[], same ▸ blank, rfl⟩) rfl later).elim

end CfgFileOptions

end Identt.Utils
