import Mathlib.Data.List.DropRight
import Identt.Lib.Chain
import Identt.Store.StoreBase

/-! # The configuration file (`CfgFileOptions`)

A file has sections of names and values, and a section may inherit another one that stands above it. `Find` looks in
the section, then in the one it inherits, and so on; a section that names none inherits the blank one, which ends the
search unless the file has a section of that name.
-/

namespace Identt.Utils

/-- `ConfigException`. -/
structure ConfigException where
  msg : Bytes
deriving DecidableEq, Repr

/-- `insert` of a map, which keeps an entry that is there. -/
def insertNew (m : OrderedMap Bytes Bytes) (key value : Bytes) : OrderedMap Bytes Bytes :=
  match m.get? key with
  | some _ => m
  | none => m.put key value

structure CfgFileOptions where
  sectionMap : OrderedMap Bytes Bytes := .empty
  inheritMap : OrderedMap Bytes Bytes := .empty
deriving DecidableEq

namespace CfgFileOptions

def makeKey (inSection name : Bytes) : Bytes := inSection ++ ascii ":" ++ name

def update (cfg : CfgFileOptions) (inSection name value : Bytes) : CfgFileOptions :=
  { cfg with sectionMap := insertNew cfg.sectionMap (makeKey inSection name) value }

/-- The value of a name in a section itself. -/
def entry (cfg : CfgFileOptions) (name inSection : Bytes) : Option Bytes := cfg.sectionMap.get? (makeKey inSection name)

section Find

variable {T : Type} [Inhabited T] (lexicalCast : Bytes → Option T)

def convertAnyToAny (inData : Bytes) (noThrow : Bool) : Except ConfigException T :=
  match lexicalCast inData with
  | some outData => .ok outData
  | none => if noThrow then .ok default else .error ⟨ascii "conversion error"⟩

/-- What `Find` gives or throws for the value that it found. -/
def outcome (name : Bytes) (noThrow : Bool) : Option Bytes → Except ConfigException T
  | some value => convertAnyToAny lexicalCast value noThrow
  | none => if noThrow then .ok default else .error ⟨ascii "Invalid Config Param : " ++ name⟩

/-- `Find`, with as many rounds of its loop as there is fuel; `none` when the fuel gives out. -/
def find (cfg : CfgFileOptions) (inSection name : Bytes) (noThrow : Bool) (fuel : ℕ) :
    Option (Except ConfigException T) :=
  match cfg.entry name inSection with
  | some value => some (outcome lexicalCast name noThrow (some value))
  | none =>
    (Chain.follow cfg.inheritMap.get? (cfg.entry name) fuel (cfg.inheritMap.get? inSection)).map
      (outcome lexicalCast name noThrow)

end Find

/-- `boost::algorithm::trim`. -/
def trim (text : Bytes) : Bytes := (text.dropWhile isSpace).rdropWhile isSpace

/-- The lines that `std::getline` gives. -/
def getLines (text : Bytes) : List Bytes :=
  let pieces := text.splitOn 10
  if pieces.getLast? = some [] then pieces.dropLast else pieces

/-- The name between the brackets of a header, or behind the only one. -/
def headerSection (line : Bytes) : Bytes :=
  trim (match line.idxOf? 93 with
    | some closing => (line.drop 1).take (closing - 1)
    | none => line.drop 1)

/-- What stands behind the last colon of a header. -/
def headerInherits (line : Bytes) : Bytes := trim (line.rtakeWhile (· ≠ 58))

/-- The object while it is read, and the section of the last header. -/
structure Reading where
  cfg : CfgFileOptions := {}
  inSection : Bytes := []

def readHeader (reading : Reading) (line : Bytes) : Except ConfigException Reading :=
  let inSection := headerSection line
  let inHerits := if 58 ∈ line then headerInherits line else []
  if line.idxOf? 93 = some 0 then .error ⟨ascii "Configfile Syntax Error " ++ line⟩
  else if (reading.cfg.inheritMap.get? inSection).isSome then .error ⟨ascii "Duplicate Section : " ++ inSection⟩
  else if 58 ∈ line ∧ reading.cfg.inheritMap.get? inHerits = none then .error ⟨ascii "Invalid Inherit : " ++ inSection⟩
  else .ok
    { cfg := { reading.cfg with inheritMap := insertNew reading.cfg.inheritMap inSection inHerits }
      inSection := inSection }

def readEntry (reading : Reading) (line : Bytes) : Except ConfigException Reading :=
  match line.idxOf? 61 with
  | none => .error ⟨ascii "Invalid Line : " ++ line⟩
  | some eqPos =>
    let myname := trim (line.take eqPos)
    let myval := trim (line.drop (eqPos + 1))
    .ok { reading with cfg := reading.cfg.update reading.inSection myname myval }

/-- One round of the loop of the constructor. -/
def readLine (reading : Reading) (line : Bytes) : Except ConfigException Reading :=
  let line := trim line
  if line = [] ∨ line.head? = some 35 ∨ line.head? = some 59 then .ok reading
  else if line.head? = some 91 then readHeader reading line
  else readEntry reading line

/-- The constructor, for the text of the file if it can be opened. -/
def create (file : Option Bytes) : Except ConfigException CfgFileOptions :=
  match file with
  | none => .error ⟨ascii "Cannot Open Configfile"⟩
  | some text => do return (← (getLines text).foldlM readLine {}).cfg

section Search

variable {T : Type} [Inhabited T] {lexicalCast : Bytes → Option T} {cfg : CfgFileOptions} {inSection name : Bytes}
  {noThrow : Bool}

/-- The search starts in the section itself. -/
theorem find_eq (fuel : ℕ) : find lexicalCast cfg inSection name noThrow fuel =
    (Chain.follow cfg.inheritMap.get? (cfg.entry name) (fuel + 1) (some inSection)).map
      (outcome lexicalCast name noThrow) := by
  rw [find, Chain.follow]
  cases cfg.entry name inSection <;> rfl

/-- `Find` ends with what the search along the inherited sections comes to. -/
theorem exists_find_iff {result : Except ConfigException T} :
    (∃ fuel, find lexicalCast cfg inSection name noThrow fuel = some result) ↔
      ∃ found, Chain.Follows cfg.inheritMap.get? (cfg.entry name) (some inSection) found ∧
        outcome lexicalCast name noThrow found = result := by
  constructor
  · rintro ⟨fuel, ended⟩
    rw [find_eq] at ended
    obtain ⟨found, followed, same⟩ := Option.map_eq_some_iff.mp ended
    exact ⟨found, Chain.exists_follow_iff.mp ⟨_, followed⟩, same⟩
  · rintro ⟨found, follows, rfl⟩
    obtain ⟨fuel, followed⟩ := Chain.exists_follow_iff.mpr follows
    cases fuel with
    | zero => cases followed
    | succ fuel => exact ⟨fuel, by rw [find_eq, followed]; rfl⟩

end Search

end CfgFileOptions

end Identt.Utils
