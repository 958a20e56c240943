import Identt.Hrpc.BlobRuns
import Identt.Query.BlobDataService

/-! # JSON values stored under access keys

A client sends a JSON object with its key, a tag, a text and any value, and asks for the tag later. What comes back
has the tag and the text; it has the value exactly if the value's text is longer than one character, since the
converter takes anything shorter for an absent value.
-/

namespace Identt.Hrpc

open Store Query ReadM StoreTrans BlobDataService

variable {D : Type} {codec : JsonCodec D}

/-- The text is an object that asks to store a value and a text under a key and a tag. -/
def AsksToStore (codec : JsonCodec D) (input k tag : Bytes) (json : Json D) (text : Bytes) : Prop :=
  ∃ members key, codec.parse (cString input) = .ok (.object members) ∧
    (Json.object members).get? (ascii "accesskey") = some (.string key) ∧ cString key = k ∧
    (Json.object members).get? (ascii "tag") = some (.string tag) ∧
    (Json.object members).get? (ascii "jsondata") = some json ∧
    (Json.object members).get? (ascii "textdata") = some (.string text)

/-- The data are stored, and asking for them after some more requests gives an object with the tag, the text and
the value. -/
def GivesBack (codec : JsonCodec D) (st : SharedTable) (env : ActionEnv) (later : List ServeStep) (input k tag : Bytes)
    (json : Json D) (text : Bytes) : Prop :=
  ∃ accessblob reply bdata members, handleDataIn codec input {} = .ok accessblob ∧
    (serve st (.setBlobData { accessblob := accessblob }) env).1 = .ok reply ∧
    getBlobDataAction (Run.final serveStep st ((.setBlobData { accessblob := accessblob }, env) :: later))
      { accessblob := { accesskey := k, tag := tag } } = .ok bdata ∧
    codec.parse (cString (handleDataOut codec bdata.accessblob)) = .ok (.object members) ∧
    (Json.object members).get? (ascii "tag") = some (.string tag) ∧
    (Json.object members).get? (ascii "textdata") = some (.string text) ∧
    (Json.object members).get? (ascii "jsondata") = some json

/-- No request asks to store under the key and the tag. -/
def StoresNothing (k tag : Bytes) (labels : List ServeStep) : Prop :=
  ∀ bdata env, (.setBlobData bdata, env) ∈ labels → bdata.accessblob.accesskey ≠ k ∨ bdata.accessblob.tag ≠ tag

theorem StoresNothing.not_occurs {k tag : Bytes} {labels : List ServeStep} (nothing : StoresNothing k tag labels)
    {st : SharedTable} {blob : Bytes × Bytes} {j : ℕ} :
    ¬ Run.Occurs serveStep (StoresBlob k tag blob) st labels j := by
  rintro ⟨⟨request, env⟩, here, bdata, _, rfl, _, sameKey, sameTag, _⟩
  rcases nothing bdata env (List.mem_of_getElem? here) with other | other
  · exact other sameKey
  · exact other sameTag

section Converters

variable {input k tag text : Bytes} {json : Json D}

/-- What the request for data becomes, and when it is refused. -/
theorem AsksToStore.handleDataIn_eq (asks : AsksToStore codec input k tag json text) (plainTag : 0 ∉ tag)
    (plainText : 0 ∉ text) (parts : (k.splitOn fmtSep).length = 3) : handleDataIn codec input {} =
      if tag = [] then .error (.badData "Blank Tag not allowed")
      else .ok { accesskey := k, tag := tag, jsondata := codec.write json, textdata := text } := by
  obtain ⟨members, key, parsed, isKey, rfl, isTag, isJson, isText⟩ := asks
  have keptTag : cString tag = tag := cString_of_ne_zero fun c member same => plainTag (same ▸ member)
  have keptText : cString text = text := cString_of_ne_zero fun c member same => plainText (same ▸ member)
  rw [handleDataIn, parsed]
  simp only [stringMember, isKey, isTag, isJson, isText, keptTag, keptText, Option.getD_some, Option.map_some, parts]
  simp

theorem parsedText_write (roundTrips : codec.RoundTrips) (json : Json D) :
    parsedText codec (codec.write json) = json := by
  rw [parsedText, roundTrips]

end Converters

/-- A key that passes has three parts. -/
theorem splitOn_length_of_passed {st : SharedTable} {k : Bytes} {accesskey : AccessKeyT}
    (passed : presentedKey st k = .ok accesskey) : (k.splitOn fmtSep).length = 3 := by
  rw [presentedKey] at passed
  split at passed
  · next pieces => rw [pieces]; rfl
  · contradiction

section Run

variable {start : SharedTable} {labels : List ServeStep}

theorem KeysKept.presentedKey_run {st : SharedTable} (keys : KeysKept st) {k : Bytes} {accesskey : AccessKeyT}
    (passed : presentedKey st k = .ok accesskey) (labels : List ServeStep) :
    presentedKey (Run.final serveStep st labels) k = .ok accesskey := by
  induction labels generalizing st with
  | nil => exact passed
  | cons label rest ih => exact ih (keys.step label) (keys.presentedKey_step passed label)

/-- What is stored with a key that passes is what the key and the tag give, until other data are stored with both. -/
theorem EmptyStore.getBlobData_of_stored (empty : EmptyStore start) {bdata : SetBlobDataT} {accesskey : AccessKeyT}
    (passed : presentedKey (Run.final serveStep start labels) bdata.accessblob.accesskey = .ok accesskey)
    {env : ActionEnv} (logged : env.commit.logPut = true) (written : env.commit.dataWrite = true)
    {later : List ServeStep}
    (quiet : StoresNothing bdata.accessblob.accesskey bdata.accessblob.tag later) :
    (serve (Run.final serveStep start labels) (.setBlobData bdata) env).1 = .ok (.setBlobData bdata) ∧
    ∀ asked : GetBlobDataT, asked.accessblob.accesskey = bdata.accessblob.accesskey →
      asked.accessblob.tag = bdata.accessblob.tag →
      getBlobDataAction (Run.final serveStep (Run.final serveStep start labels) ((.setBlobData bdata, env) :: later))
        asked = .ok (blobReply asked (bdata.accessblob.jsondata, bdata.accessblob.textdata)) := by
  have told := empty.run_blobsTold labels
  have answered : (serve (Run.final serveStep start labels) (.setBlobData bdata) env).1 = .ok (.setBlobData bdata) := by
    rw [@serve_setBlobData_passed _ told.keys.consistent env bdata accesskey passed, if_pos logged, if_pos written]
  refine ⟨answered, fun asked sameKey sameTag => ?_⟩
  have joined : Run.final serveStep (Run.final serveStep start labels) ((.setBlobData bdata, env) :: later) =
      Run.final serveStep start (labels ++ (.setBlobData bdata, env) :: later) := (Run.final_append ..).symm
  have toldAfter := empty.run_blobsTold (labels ++ (.setBlobData bdata, env) :: later)
  have passedAfter := told.keys.presentedKey_run passed ((.setBlobData bdata, env) :: later)
  have stores : StoresBlob bdata.accessblob.accesskey bdata.accessblob.tag
      (bdata.accessblob.jsondata, bdata.accessblob.textdata) (Run.final serveStep start labels)
      (.setBlobData bdata, env) := ⟨bdata, _, rfl, answered, rfl, rfl, rfl⟩
  rw [joined] at passedAfter ⊢
  rw [← sameKey] at passedAfter
  have held := (toldAfter.held_iff passedAfter asked.accessblob.tag
    (bdata.accessblob.jsondata, bdata.accessblob.textdata)).mpr (by
      rw [sameKey, sameTag]
      exact Run.latest_append stores fun blob j => quiet.not_occurs)
  exact (getBlobData_iff toldAfter.keys.consistent.invariant passedAfter).1 _ held

/-- A value that is stored with a key that passes comes back if the tag is not blank and the text is longer than one
character, and in no other case. -/
theorem givesBack_iff_long (roundTrips : codec.RoundTrips) (empty : EmptyStore start) {k : Bytes}
    {accesskey : AccessKeyT} (passed : presentedKey (Run.final serveStep start labels) k = .ok accesskey)
    {env : ActionEnv} (logged : env.commit.logPut = true) (written : env.commit.dataWrite = true)
    {input tag text : Bytes} {json : Json D} (asks : AsksToStore codec input k tag json text) (plainTag : 0 ∉ tag)
    (plainText : 0 ∉ text) {later : List ServeStep} (quiet : StoresNothing k tag later) :
    GivesBack codec (Run.final serveStep start labels) env later input k tag json text ↔
      tag ≠ [] ∧ 1 < (codec.write json).length := by
  have converted := asks.handleDataIn_eq plainTag plainText (splitOn_length_of_passed passed)
  by_cases blank : tag = []
  · refine iff_of_false ?_ fun both => both.1 blank
    rintro ⟨accessblob, _, _, _, accepted, _⟩
    rw [converted, if_pos blank] at accepted
    contradiction
  rw [if_neg blank] at converted
  obtain ⟨answered, reads⟩ := @EmptyStore.getBlobData_of_stored start labels empty
    { accessblob := { accesskey := k, tag := tag, jsondata := codec.write json, textdata := text } } accesskey passed
    env logged written later quiet
  have read := reads { accessblob := { accesskey := k, tag := tag } } rfl rfl
  obtain ⟨members, parsed, isTag, isText, isJson⟩ := @parse_handleDataOut _ _ roundTrips
    { accesskey := k, tag := tag, jsondata := codec.write json, textdata := text } rfl
  constructor
  · rintro ⟨accessblob, reply, bdata, others, accepted, _, asked, parsedBack, _, _, back⟩
    obtain rfl := Except.ok.inj (converted.symm.trans accepted)
    obtain rfl := Except.ok.inj (read.symm.trans asked)
    obtain rfl : members = others := by
      have same := Except.ok.inj (parsed.symm.trans parsedBack)
      exact Json.object.inj same
    rw [back] at isJson
    refine ⟨blank, ?_⟩
    by_contra short
    rw [if_neg short] at isJson
    contradiction
  · rintro ⟨_, long⟩
    rw [if_pos long, parsedText_write roundTrips] at isJson
    exact ⟨_, _, _, members, converted, answered, read, parsed, isTag, isText, isJson⟩

/-- A value that is stored with a key that passes comes back exactly if the tag is not blank and the value is no
digit, however many requests come between that do not store under the key and the tag again. -/
theorem givesBack_iff (roundTrips : codec.RoundTrips) (digits : codec.DigitsAlone) (empty : EmptyStore start)
    {k : Bytes} {accesskey : AccessKeyT} (passed : presentedKey (Run.final serveStep start labels) k = .ok accesskey)
    {env : ActionEnv} (logged : env.commit.logPut = true) (written : env.commit.dataWrite = true)
    {input tag text : Bytes} {json : Json D} (asks : AsksToStore codec input k tag json text) (plainTag : 0 ∉ tag)
    (plainText : 0 ∉ text) {later : List ServeStep} (quiet : StoresNothing k tag later) :
    GivesBack codec (Run.final serveStep start labels) env later input k tag json text ↔
      tag ≠ [] ∧ ¬ ∃ n : JsonInt, json = .int n ∧ 0 ≤ n.val ∧ n.val < 10 := by
  rw [givesBack_iff_long roundTrips empty passed logged written asks plainTag plainText quiet, ← digits json, not_le]

end Run

/-- A user validates an address and asks for its key. -/
def userWithKey : List ServeStep := keyAndBlobs.take 3

def userKey : Bytes := ascii "email:a@x.com:1b4e28ba"

def storing : ActionEnv := { currtime := 1000003, commit := { now := 1000003 } }

/-- The user's request to store a value, with a text, under a tag. -/
def storeText (json : Json Empty) : Bytes :=
  compactJson.write (.object [(ascii "accesskey", .string userKey), (ascii "tag", .string (ascii "t")),
    (ascii "jsondata", json), (ascii "textdata", .string (ascii "x"))])

theorem asksToStore_storeText (json : Json Empty) :
    AsksToStore compactJson (storeText json) userKey (ascii "t") json (ascii "x") :=
  ⟨_, userKey, compactJson_roundTrips _, rfl, by decide, rfl, rfl, rfl⟩

theorem compactJson_digitsAlone : compactJson.DigitsAlone := fun _ => JsonText.write_length_le_one_iff

theorem userKey_passed :
    ∃ accesskey, presentedKey (Run.final serveStep emptyMaster userWithKey) userKey = .ok accesskey := by
  have passes : (presentedKey (Run.final serveStep emptyMaster userWithKey) userKey).isOk := by decide +kernel
  cases answer : presentedKey (Run.final serveStep emptyMaster userWithKey) userKey with
  | ok accesskey => exact ⟨accesskey, rfl⟩
  | error e =>
    rw [answer] at passes
    contradiction

theorem givesBack_iff_flag : GivesBack compactJson (Run.final serveStep emptyMaster userWithKey) storing []
      (storeText (.bool true)) userKey (ascii "t") (.bool true) (ascii "x") ↔
    ascii "t" ≠ [] ∧ ¬ ∃ n : JsonInt, Json.bool true = (.int n : Json Empty) ∧ 0 ≤ n.val ∧ n.val < 10 := by
  obtain ⟨accesskey, passed⟩ := userKey_passed
  exact givesBack_iff compactJson_roundTrips compactJson_digitsAlone emptyStore_emptyMaster passed rfl rfl
    (asksToStore_storeText _) (by decide) (by decide) (fun _ _ member => (List.not_mem_nil member).elim)

def seven : Json Empty := .int ⟨7, by decide, by decide⟩

/-- The number seven is stored, and does not come back. -/
theorem seven_lost : ¬ GivesBack compactJson (Run.final serveStep emptyMaster userWithKey) storing []
    (storeText seven) userKey (ascii "t") seven (ascii "x") := by
  obtain ⟨accesskey, passed⟩ := userKey_passed
  have never : StoresNothing userKey (ascii "t") [] := fun _ _ member => (List.not_mem_nil member).elim
  rw [givesBack_iff_long compactJson_roundTrips emptyStore_emptyMaster passed rfl rfl (asksToStore_storeText _)
    (by decide) (by decide) never]
  decide

end Identt.Hrpc
