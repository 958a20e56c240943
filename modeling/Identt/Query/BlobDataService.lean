import Identt.Proto.Query
import Identt.Query.ProtoJson
import Identt.Store.StoreBase

/-! # The JSON of stored data (`query/BlobDataService.hpp`)

Data that a client stores under its key come and go as a JSON object. What the client has under `jsondata` may be
any value; it is stored as its text.
-/

namespace Identt.Query

variable {D : Type}

/-- `Pointer::Set` for a member of the document. -/
def pointerSet (name : Bytes) (value d : Json D) : Json D := (d.create name).setMember name value

/-- The C string of a member that is a string. -/
def stringMember (d : Json D) (name : Bytes) : Option Bytes :=
  match d.get? name with
  | some (.string text) => some (cString text)
  | _ => none

/-- Convert the JSON to accessblob. -/
def handleDataIn (codec : JsonCodec D) (input : Bytes) (accessblob : AccessBlobT) : Except Exn AccessBlobT :=
  match codec.parse (cString input) with
  | .error _ => .error (.sydent "Bad Json Format" mBadJson)
  | .ok (.object members) =>
    let d : Json D := .object members
    let accessblob := { accessblob with
      accesskey := (stringMember d (ascii "accesskey")).getD accessblob.accesskey
      tag := (stringMember d (ascii "tag")).getD accessblob.tag
      textdata := (stringMember d (ascii "textdata")).getD accessblob.textdata
      -- if jsondata exists make it a string
      jsondata := ((d.get? (ascii "jsondata")).map codec.write).getD accessblob.jsondata }
    -- checks common
    if (accessblob.accesskey.splitOn Store.fmtSep).length ≠ 3 then .error (.badData "Bad Accesskey")
    else if accessblob.tag = [] then .error (.badData "Blank Tag not allowed")
    else .ok accessblob
  | .ok _ => .error .badJson -- `HasMember` asserts that there is an object

/-- `Parse` of the stored text; a text that cannot be parsed leaves the document `null`. -/
def parsedText (codec : JsonCodec D) (text : Bytes) : Json D :=
  match codec.parse (cString text) with
  | .ok json => json
  | .error _ => .null

/-- Convert the accessblob to JSON. -/
def handleDataOut (codec : JsonCodec D) (accessblob : AccessBlobT) : Bytes :=
  if accessblob.accessdenied then codec.write (pointerSet (ascii "accessdenied") (.bool true) .null)
  else
    let d := pointerSet (ascii "tag") (.string accessblob.tag) .null
    let d := pointerSet (ascii "textdata") (.string accessblob.textdata) d
    let d := if 1 < accessblob.jsondata.length then
        pointerSet (ascii "jsondata") (parsedText codec accessblob.jsondata) d
      else d
    codec.write d

/-- The text of a value has one character only for a digit. -/
def JsonCodec.DigitsAlone (codec : JsonCodec D) : Prop :=
  ∀ json, (codec.write json).length ≤ 1 ↔ ∃ n : JsonInt, json = .int n ∧ 0 ≤ n.val ∧ n.val < 10

theorem get?_pointerSet (name : Bytes) (value d : Json D) : (pointerSet name value d).get? name = some value := by
  rw [pointerSet, Json.get?_setMember]
  rw [Json.get?_create]
  rfl

theorem get?_pointerSet_of_ne {name other : Bytes} (differ : other ≠ name) (value d : Json D) :
    (pointerSet name value d).get? other = d.get? other := by
  rw [pointerSet, Json.get?_setMember_of_ne differ, Json.get?_create_of_ne differ]

theorem exists_pointerSet (name : Bytes) (value d : Json D) : ∃ members, pointerSet name value d = .object members := by
  obtain ⟨members, created⟩ := Json.exists_create name d
  rw [pointerSet, created]
  exact ⟨_, rfl⟩

/-- The converter's output is an object with the tag, the text and the value of the stored text, if that is longer
than one character. -/
theorem parse_handleDataOut {codec : JsonCodec D} (roundTrips : codec.RoundTrips) {accessblob : AccessBlobT}
    (allowed : accessblob.accessdenied = false) :
    ∃ members, codec.parse (cString (handleDataOut codec accessblob)) = .ok (.object members) ∧
      (Json.object members).get? (ascii "tag") = some (.string accessblob.tag) ∧
      (Json.object members).get? (ascii "textdata") = some (.string accessblob.textdata) ∧
      (Json.object members).get? (ascii "jsondata") =
        if 1 < accessblob.jsondata.length then some (parsedText codec accessblob.jsondata) else none := by
  have textdataNe : ascii "tag" ≠ ascii "textdata" := by decide
  have jsondataNe : ascii "tag" ≠ ascii "jsondata" ∧ ascii "textdata" ≠ ascii "jsondata" := by decide
  have absent : ((.null : Json D)).get? (ascii "jsondata") = none := rfl
  rw [handleDataOut, if_neg (by simp [allowed]), roundTrips]
  split
  · obtain ⟨members, object⟩ := exists_pointerSet (ascii "jsondata") (parsedText codec accessblob.jsondata)
      (pointerSet (ascii "textdata") (.string accessblob.textdata)
        (pointerSet (ascii "tag") (.string accessblob.tag) .null))
    refine ⟨members, by rw [object], ?_, ?_, ?_⟩
    · rw [← object, get?_pointerSet_of_ne jsondataNe.1, get?_pointerSet_of_ne textdataNe, get?_pointerSet]
    · rw [← object, get?_pointerSet_of_ne jsondataNe.2, get?_pointerSet]
    · rw [← object, get?_pointerSet]
  · obtain ⟨members, object⟩ := exists_pointerSet (ascii "textdata") (.string accessblob.textdata)
      (pointerSet (ascii "tag") (.string accessblob.tag) (.null : Json D))
    refine ⟨members, by rw [object], ?_, ?_, ?_⟩
    · rw [← object, get?_pointerSet_of_ne textdataNe, get?_pointerSet]
    · rw [← object, get?_pointerSet]
    · rw [← object, get?_pointerSet_of_ne (by decide), get?_pointerSet_of_ne (by decide), absent]

end Identt.Query
