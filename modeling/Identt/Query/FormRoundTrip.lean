import Identt.Query.FormGrammar
import Identt.Query.ProtoJson

/-! # Requests as forms and as JSON

Tests and clients write a request as a form or as JSON. What `urlencode` writes is read back byte by byte, and keeps
off `&` and `=`, so a form of encoded names and values has the entries it was made of, and a request of texts and
32-bit numbers is the same whichever way it came.
-/

namespace Identt.Query

/-- The requests that are sent as forms. -/
def formRequests : List MessageType := [.requestTokenT, .submitTokenT, .lookupQueryT, .toSignQueryT]

/-- `std::to_string` of a 32-bit number. -/
def decimal (n : Int32) : Bytes :=
  if n.toInt < 0 then 45 :: Identt.toString n.toInt.natAbs else Identt.toString n.toInt.natAbs

/-- `boost::lexical_cast` reads the numbers that are printed. -/
def LexicalCast.ReadsDecimals (cast : LexicalCast) : Prop := ∀ n, cast.int32 (decimal n) = some n

/-- The text of a value, for the types that requests have. -/
def valueText : FieldValue → Bytes
  | .string text => text
  | .int32 n => decimal n
  | _ => []

/-- The text of a field that is set. -/
def fieldText (msg : Message) (field : FieldDescriptor MessageType) : Bytes :=
  (msg field.name).head?.elim [] valueText

def setFields (m : MessageType) (msg : Message) : List (FieldDescriptor MessageType) :=
  (protoPool.fields m).filter fun field => !(msg field.name).isEmpty

def formPiece (entry : Bytes × Bytes) : Bytes := urlencode entry.1 ++ equalSign :: urlencode entry.2

/-- The form of entries. -/
def writeForm (entries : List (Bytes × Bytes)) : Bytes := [ampersand].intercalate (entries.map formPiece)

/-- The form of some fields of a message. -/
def formText (fields : List (FieldDescriptor MessageType)) (msg : Message) : Bytes :=
  writeForm (fields.map fun field => (field.name, fieldText msg field))

/-- The JSON text of some fields of a message. -/
def jsonText {D : Type} (codec : JsonCodec D) (fields : List (FieldDescriptor MessageType)) (msg : Message) : Bytes :=
  codec.write (.object (fields.filterMap fun field =>
    memberOf field ((msg field.name).map (field2json protoPool field.type))))

section Encoding

theorem digitValue_upperDigit {digit : ℕ} (small : digit < 16) : digitValue 16 (upperDigit digit) = some digit := by
  have all : ∀ digit : Fin 16, digitValue 16 (upperDigit digit) = some digit.val := by decide
  exact all ⟨digit, small⟩

/-- A character of the encoding: one that is kept, or an escape of its number. -/
theorem urlencodeChar_cases (c : UInt8) :
    (urlencodeChar c = [c] ∧ c ≠ percentSign ∧ c ≠ plusSign ∧ c ≠ equalSign ∧ c ≠ ampersand) ∨
      urlencodeChar c = [percentSign, upperDigit (c.toNat / 16), upperDigit (c.toNat % 16)] := by
  rw [urlencodeChar]
  split
  · next kept =>
    refine .inl ⟨rfl, ?_, ?_, ?_, ?_⟩ <;>
    · rintro rfl
      exact absurd kept (by decide)
  · exact .inr rfl

theorem wholeEscapes_urlencodeChar (c : UInt8) : WholeEscapes (urlencodeChar c) := by
  rcases urlencodeChar_cases c with ⟨kept, plain, _⟩ | escaped
  · rw [kept]
    exact .char plain .nil
  · rw [escaped]
    have bound := c.toNat_lt
    exact .escape (digitValue_upperDigit (by omega)) (digitValue_upperDigit (by omega)) .nil

theorem unescape_urlencodeChar (c : UInt8) (rest : Bytes) : unescape (urlencodeChar c ++ rest) = c :: unescape rest := by
  rcases urlencodeChar_cases c with ⟨kept, plain, notPlus, _⟩ | escaped
  · rw [kept, List.singleton_append, unescape_char rest plain, if_neg notPlus]
  · have bound := c.toNat_lt
    rw [escaped, List.cons_append, List.cons_append, List.cons_append, List.nil_append,
      unescape_escape rest (digitValue_upperDigit (by omega)) (digitValue_upperDigit (by omega)), Nat.div_add_mod,
      UInt8.ofNat_toNat]

/-- Encoded text keeps off the signs of a form. -/
theorem notMem_urlencodeChar {sign : UInt8} (noDigit : digitValue 16 sign = none)
    (isSign : sign = equalSign ∨ sign = ampersand) (c : UInt8) : sign ∉ urlencodeChar c := by
  intro member
  rcases urlencodeChar_cases c with ⟨kept, _, _, notEqual, notAmpersand⟩ | escaped
  · rw [kept, List.mem_singleton] at member
    rcases isSign with rfl | rfl
    · exact notEqual member.symm
    · exact notAmpersand member.symm
  · have bound := c.toNat_lt
    rw [escaped, List.mem_cons, List.mem_cons, List.mem_singleton] at member
    rcases member with rfl | high | low
    · exact absurd isSign (by decide)
    · exact ne_of_digit (digitValue_upperDigit (by omega)) noDigit high.symm
    · exact ne_of_digit (digitValue_upperDigit (by omega)) noDigit low.symm

theorem wholeEscapes_urlencode (text : Bytes) : WholeEscapes (urlencode text) := by
  induction text with
  | nil => exact .nil
  | cons c rest ih => exact (wholeEscapes_urlencodeChar c).append ih

/-- What is encoded is read back, whatever bytes it has. -/
theorem unescape_urlencode (text : Bytes) : unescape (urlencode text) = text := by
  induction text with
  | nil => rfl
  | cons c rest ih => rw [urlencode, List.flatMap_cons, unescape_urlencodeChar, ← urlencode, ih]

theorem notMem_urlencode {sign : UInt8} (noDigit : digitValue 16 sign = none)
    (isSign : sign = equalSign ∨ sign = ampersand) (text : Bytes) : sign ∉ urlencode text := by
  intro member
  obtain ⟨c, _, inChar⟩ := List.mem_flatMap.mp member
  exact notMem_urlencodeChar noDigit isSign c inChar

theorem equalSign_notMem (text : Bytes) : equalSign ∉ urlencode text :=
  notMem_urlencode (by decide) (.inl rfl) text

theorem ampersand_notMem (text : Bytes) : ampersand ∉ urlencode text :=
  notMem_urlencode (by decide) (.inr rfl) text

theorem wholeEscapes_formPiece (entry : Bytes × Bytes) : WholeEscapes (formPiece entry) :=
  (wholeEscapes_urlencode _).append (.char (by decide) (wholeEscapes_urlencode _))

theorem ampersand_notMem_formPiece (entry : Bytes × Bytes) : ampersand ∉ formPiece entry := by
  rw [formPiece, List.mem_append, List.mem_cons, not_or, not_or]
  exact ⟨ampersand_notMem _, by decide, ampersand_notMem _⟩

theorem pieceEntry_formPiece (entry : Bytes × Bytes) : pieceEntry (formPiece entry) = entry := by
  rw [formPiece, pieceEntry_cut _ (equalSign_notMem _), unescape_urlencode, unescape_urlencode]

theorem plainPieces_map_formPiece (entries : List (Bytes × Bytes)) : PlainPieces (entries.map formPiece) where
  oneSign piece member := by
    obtain ⟨entry, _, rfl⟩ := List.mem_map.mp member
    rw [formPiece, List.count_append, List.count_cons_self, List.count_eq_zero.mpr (equalSign_notMem _),
      List.count_eq_zero.mpr (equalSign_notMem _)]
  valued piece member _ := by
    obtain ⟨entry, _, rfl⟩ := List.mem_map.mp (List.mem_of_mem_dropLast member)
    exact List.mem_append_right _ (List.mem_cons_self ..)
  ended blank := by
    obtain ⟨entry, _, none⟩ := List.mem_map.mp (List.mem_of_getLast? blank)
    exact List.append_ne_nil_of_right_ne_nil _ (List.cons_ne_nil _ _) none

/-- A form is read as the entries it was made of. -/
theorem urldecode_writeForm {entries : List (Bytes × Bytes)} (nonempty : entries ≠ []) :
    urldecode (writeForm entries) = entries.foldl putEntry .empty := by
  have whole : ∀ piece ∈ entries.map formPiece, WholeEscapes piece := by
    intro piece member
    obtain ⟨entry, _, rfl⟩ := List.mem_map.mp member
    exact wholeEscapes_formPiece entry
  have noAmpersand : ∀ piece ∈ entries.map formPiece, ampersand ∉ piece := by
    intro piece member
    obtain ⟨entry, _, rfl⟩ := List.mem_map.mp member
    exact ampersand_notMem_formPiece entry
  have read := (plainPieces_map_formPiece entries).finish (by simpa using nonempty) whole noAmpersand .empty []
  have filled : (entries.map formPiece).filter (· ≠ []) = entries.map formPiece := by
    refine List.filter_eq_self.mpr fun piece member => ?_
    obtain ⟨entry, _, rfl⟩ := List.mem_map.mp member
    simp [formPiece]
  rw [filled, List.map_map] at read
  refine read.trans (congrArg (List.foldl putEntry .empty) ?_)
  exact (List.map_congr_left fun entry _ => pieceEntry_formPiece entry).trans (List.map_id _)

end Encoding

section Requests

variable {cast : LexicalCast} {m : MessageType} {msg : Message}

/-- The entries of a map of different names. -/
theorem entries_foldl_putEntry {entries : List (Bytes × Bytes)} (distinct : (entries.map Prod.fst).Nodup) :
    (entries.foldl putEntry .empty).entries.Perm entries := by
  have sorted : (entries.foldl putEntry .empty).entries.Nodup :=
    (entries.foldl putEntry .empty).sorted.imp fun less same => less.ne (congrArg Prod.fst same)
  refine (List.perm_ext_iff_of_nodup sorted (distinct.of_map _)).mpr fun entry => ?_
  have once : ∀ e ∈ entries, ∀ e' ∈ entries, e.1 = e'.1 → e = e' :=
    fun e inList e' inList' => List.inj_on_of_nodup_map distinct inList inList'
  have listed := @OrderedMap.mem_entries_foldl_put _ _ _ _ Prod.fst Prod.snd entries once entry.1 entry.2
  refine listed.trans ⟨?_, fun member => ⟨entry, member, rfl, rfl⟩⟩
  rintro ⟨e, member, sameName, sameText⟩
  exact Prod.ext sameName sameText ▸ member

/-- Requests have texts and 32-bit numbers. -/
theorem field_of_request (request : m ∈ formRequests) {field : FieldDescriptor MessageType}
    (isField : field ∈ protoPool.fields m) :
    field.repeated = false ∧ (field.type = .string ∨ field.type = .int32) := by
  simp only [formRequests, List.mem_cons, List.not_mem_nil, or_false] at request
  rcases request with rfl | rfl | rfl | rfl <;>
  · simp only [protoPool, MessageType.fields, MessageType.one, List.mem_cons, List.not_mem_nil, or_false] at isField
    rcases isField with rfl | rfl | rfl | rfl | rfl | rfl <;> simp

theorem castValue_valueText (reads : cast.ReadsDecimals) {type : FieldType MessageType} {value : FieldValue}
    (isValue : protoPool.IsValue type value) (plain : type = .string ∨ type = .int32) :
    castValue cast type (valueText value) = .ok value := by
  rcases plain with rfl | rfl
  · cases isValue
    rfl
  · cases isValue with
    | int32 n => simp only [castValue, valueText, reads n]

theorem mem_setFields {field : FieldDescriptor MessageType} :
    field ∈ setFields m msg ↔ field ∈ protoPool.fields m ∧ msg field.name ≠ [] := by
  simp [setFields]

/-- A field that is set has one value, and not the default. -/
theorem exists_value (isMessage : protoPool.IsMessage m msg) {field : FieldDescriptor MessageType}
    (isSet : field ∈ setFields m msg) (single : field.repeated = false) :
    ∃ value, msg field.name = [value] ∧ protoPool.IsValue field.type value ∧ value.isDefault = false := by
  obtain ⟨isField, filled⟩ := mem_setFields.mp isSet
  cases isMessage with
  | message named typed once set =>
    have length := once field isField single
    cases values : msg field.name with
    | nil => exact absurd values filled
    | cons value rest =>
      rw [values, List.length_cons] at length
      have noRest : rest = [] := List.length_eq_zero_iff.mp (by omega)
      have member : value ∈ msg field.name := values ▸ List.mem_cons_self ..
      exact ⟨value, by rw [noRest], typed field isField value member, set field isField single value member⟩

/-- An entry of the form sets its field. -/
theorem setNamed_of_set (reads : cast.ReadsDecimals) (request : m ∈ formRequests) (isMessage : protoPool.IsMessage m msg)
    {field : FieldDescriptor MessageType} (isSet : field ∈ setFields m msg) (old : Message) :
    setNamed protoPool cast m old (field.name, fieldText msg field) =
      .ok (Function.update old field.name (msg field.name)) := by
  have isField := (mem_setFields.mp isSet).1
  obtain ⟨single, plain⟩ := field_of_request request isField
  obtain ⟨value, values, isValue, notDefault⟩ := exists_value isMessage isSet single
  have text : fieldText msg field = valueText value := by rw [fieldText, values]; rfl
  rw [setNamed, findField_cString isField]
  simp only [single, text, castValue_valueText reads isValue plain]
  change Except.ok (old.setField field value) = _
  rw [Message.setField, single, notDefault, values]
  rfl

theorem foldlM_setNamed (reads : cast.ReadsDecimals) (request : m ∈ formRequests) (isMessage : protoPool.IsMessage m msg)
    {entries : List (Bytes × Bytes)}
    (made : ∀ entry ∈ entries, ∃ field ∈ setFields m msg, (field.name, fieldText msg field) = entry) (old : Message) :
    entries.foldlM (setNamed protoPool cast m) old =
      .ok fun name => if name ∈ entries.map Prod.fst then msg name else old name := by
  induction entries generalizing old with
  | nil => simp [pure, Except.pure]
  | cons entry rest ih =>
    obtain ⟨⟨field, isSet, rfl⟩, madeRest⟩ := List.forall_mem_cons.mp made
    rw [List.foldlM_cons, setNamed_of_set reads request isMessage isSet]
    refine (ih madeRest _).trans (congrArg Except.ok (funext fun name => ?_))
    by_cases here : name = field.name
    · simp [here]
    · have inRest : name ∈ ((field.name, fieldText msg field) :: rest).map Prod.fst ↔ name ∈ rest.map Prod.fst := by
        rw [List.map_cons, List.mem_cons, or_iff_right here]
      simp only [inRest, Function.update_of_ne here]

/-- A message is made of its fields that are set. -/
theorem eq_of_setFields (isMessage : protoPool.IsMessage m msg) {names : List Bytes}
    (all : ∀ field ∈ setFields m msg, field.name ∈ names) :
    (fun name => if name ∈ names then msg name else Message.empty name) = msg := by
  cases isMessage with
  | message named _ _ _ =>
    funext name
    split
    · rfl
    · next absent =>
      by_contra differ
      obtain ⟨field, isField, rfl⟩ := named name (Ne.symm differ)
      exact absent (all field (mem_setFields.mpr ⟨isField, Ne.symm differ⟩))

theorem setFields_names_nodup {ordered : List (FieldDescriptor MessageType)} (perm : ordered.Perm (setFields m msg)) :
    (ordered.map FieldDescriptor.name).Nodup :=
  (perm.map FieldDescriptor.name).nodup_iff.mpr ((List.filter_sublist.map FieldDescriptor.name).nodup (protoPool.nodup m))

/-- The form of the fields of a request gives the request, in whatever order they come. -/
theorem form2pb_formText (reads : cast.ReadsDecimals) (order : HashOrder) (request : m ∈ formRequests)
    (isMessage : protoPool.IsMessage m msg) {ordered : List (FieldDescriptor MessageType)}
    (perm : ordered.Perm (setFields m msg)) :
    form2pb protoPool cast order m (formText ordered msg) .empty = .ok msg := by
  let entries := ordered.map fun field => (field.name, fieldText msg field)
  have names : entries.map Prod.fst = ordered.map FieldDescriptor.name := by rw [List.map_map]; rfl
  have whole := @eq_of_setFields _ _ isMessage (ordered.map FieldDescriptor.name)
    fun field isSet => List.mem_map_of_mem (perm.mem_iff.mpr isSet)
  by_cases blank : entries = []
  · -- The form of no fields is empty and has one entry, which names no field.
    have none : ordered = [] := List.map_eq_nil_iff.mp blank
    have single : order.entries (urldecode []) = [([], [])] := List.perm_singleton.mp (order.perm (urldecode []))
    have unnamed (old : Message) : setNamed protoPool cast m old ([], []) = .ok old := by
      simp only [formRequests, List.mem_cons, List.not_mem_nil, or_false] at request
      rcases request with rfl | rfl | rfl | rfl <;> rfl
    rw [none] at whole ⊢
    rw [form2pb, show formText [] msg = [] from rfl, single, List.foldlM_cons, unnamed]
    exact congrArg Except.ok whole
  · have listed : (order.entries (urldecode (formText ordered msg))).Perm entries := by
      rw [formText, urldecode_writeForm blank]
      exact (order.perm _).trans (entries_foldl_putEntry (names.symm ▸ setFields_names_nodup perm))
    have made : ∀ entry ∈ order.entries (urldecode (formText ordered msg)),
        ∃ field ∈ setFields m msg, (field.name, fieldText msg field) = entry := by
      intro entry member
      obtain ⟨field, inOrder, same⟩ := List.mem_map.mp (listed.mem_iff.mp member)
      exact ⟨field, perm.mem_iff.mp inOrder, same⟩
    rw [form2pb, foldlM_setNamed reads request isMessage made]
    refine congrArg Except.ok (Eq.trans (funext fun name => ?_) whole)
    have same : name ∈ (order.entries (urldecode (formText ordered msg))).map Prod.fst ↔
        name ∈ ordered.map FieldDescriptor.name := names ▸ (listed.map Prod.fst).mem_iff
    simp only [same]

theorem json2pb_jsonText {D : Type} {codec : JsonCodec D} (roundTrips : codec.RoundTrips)
    (isMessage : protoPool.IsMessage m msg) {ordered : List (FieldDescriptor MessageType)}
    (perm : ordered.Perm (setFields m msg)) :
    json2pb protoPool codec m (jsonText codec ordered msg) .empty = .ok msg := by
  have areFields : ∀ field ∈ ordered, field ∈ protoPool.fields m :=
    fun field member => (mem_setFields.mp (perm.mem_iff.mp member)).1
  have whole := @eq_of_setFields _ _ isMessage (ordered.map FieldDescriptor.name)
    fun field isSet => List.mem_map_of_mem (perm.mem_iff.mpr isSet)
  cases isMessage with
  | message named typed single set =>
    rw [jsonText, json2pb, roundTrips]
    dsimp only
    rw [parseJson, parseMembers_filterMap areFields (setFields_names_nodup perm)
      (fun field member => typed field (areFields field member))
      (fun field member value has => readsBack (typed field (areFields field member) value has) field rfl)
      (fun field member kind => ⟨single field (areFields field member) kind, set field (areFields field member) kind⟩)
      (fun _ _ => rfl), whole]

end Requests

/-- A request reads the same from its form and from its JSON text, with its fields in any order. -/
theorem form2pb_eq_json2pb {D : Type} {codec : JsonCodec D} (roundTrips : codec.RoundTrips) {cast : LexicalCast}
    (reads : cast.ReadsDecimals) (order : HashOrder) {m : MessageType} (request : m ∈ formRequests) {msg : Message}
    (isMessage : protoPool.IsMessage m msg) {inForm inJson : List (FieldDescriptor MessageType)}
    (ofForm : inForm.Perm (setFields m msg)) (ofJson : inJson.Perm (setFields m msg)) :
    form2pb protoPool cast order m (formText inForm msg) .empty = .ok msg ∧
      json2pb protoPool codec m (jsonText codec inJson msg) .empty = .ok msg :=
  ⟨form2pb_formText reads order request isMessage ofForm, json2pb_jsonText roundTrips isMessage ofJson⟩

section DecimalCast

def readNat (text : Bytes) : Option ℕ :=
  let digits := leadingDigits 10 text
  if digits = [] ∨ digits.length ≠ text.length then none else some (Radix.value 10 digits)

/-- A number after an optional sign. -/
def readSigned (text : Bytes) : Option ℤ :=
  if text.head? = some 45 then (readNat text.tail).map fun n : ℕ => -(n : ℤ)
  else (readNat (if text.head? = some 43 then text.tail else text)).map fun n : ℕ => (n : ℤ)

def readInt (lo hi : ℤ) (text : Bytes) : Option ℤ := (readSigned text).filter fun n => lo ≤ n ∧ n < hi

def decimalCast : LexicalCast where
  int32 text := (readInt (-2 ^ 31) (2 ^ 31) text).map .ofInt
  uint32 text := (readInt 0 (2 ^ 32) text).map fun n => .ofNat n.toNat
  int64 text := (readInt (-2 ^ 63) (2 ^ 63) text).map .ofInt
  uint64 text := (readInt 0 (2 ^ 64) text).map fun n => .ofNat n.toNat
  bool text := if text = [48] then some false else if text = [49] then some true else none

theorem readNat_toString (n : ℕ) : readNat (Identt.toString n) = some n := by
  have digits : leadingDigits 10 (Identt.toString n) = Radix.numeral 10 1 n :=
    Store.leadingDigits_map (by omega) fun _ => Radix.digit_lt (by omega)
  have some := Radix.numeral_length_ge 10 1 n
  have filled : Radix.numeral 10 1 n ≠ [] := List.ne_nil_of_length_pos (by omega)
  simp only [readNat, digits, Radix.value_numeral]
  rw [if_neg]
  simp [filled, Identt.toString]

/-- A printed number starts with a digit, not with a sign. -/
theorem toString_head (n : ℕ) : (Identt.toString n).head? ≠ some 45 ∧ (Identt.toString n).head? ≠ some 43 := by
  have digits : ∀ digit : Fin 10, digitChar digit ≠ 45 ∧ digitChar digit ≠ 43 := by decide
  have all : ∀ c ∈ Identt.toString n, c ≠ 45 ∧ c ≠ 43 := by
    intro c member
    obtain ⟨digit, inNumeral, rfl⟩ := List.mem_map.mp member
    exact digits ⟨digit, Radix.digit_lt (by omega) inNumeral⟩
  exact ⟨fun minus => (all 45 (List.mem_of_head? minus)).1 rfl, fun plus => (all 43 (List.mem_of_head? plus)).2 rfl⟩

theorem readSigned_decimal (n : Int32) : readSigned (decimal n) = some n.toInt := by
  obtain ⟨notMinus, notPlus⟩ := toString_head n.toInt.natAbs
  rw [readSigned, decimal]
  by_cases negative : n.toInt < 0
  · have value : -(n.toInt.natAbs : ℤ) = n.toInt := by omega
    rw [if_pos negative, List.head?_cons, if_pos rfl, List.tail_cons, readNat_toString, Option.map_some, value]
  · have value : (n.toInt.natAbs : ℤ) = n.toInt := by omega
    rw [if_neg negative, if_neg notMinus, if_neg notPlus, readNat_toString, Option.map_some, value]

theorem decimalCast_readsDecimals : decimalCast.ReadsDecimals := by
  intro n
  have inRange : decide (-2 ^ 31 ≤ n.toInt ∧ n.toInt < 2 ^ 31) = true := decide_eq_true ⟨n.le_toInt, n.toInt_lt⟩
  simp only [decimalCast, readInt, readSigned_decimal, Option.filter_some, inRange, if_true, Option.map_some,
    Int32.ofInt_toInt]

end DecimalCast

/-- A request with a number below zero and a secret that is no text. -/
def exampleRequest : Message :=
  (Message.empty.setField (MessageType.one .string "client_secret") (.string [0, 38, 61, 255])).setField
    (MessageType.one .int32 "send_attempt") (.int32 (-7))

theorem exampleRequest_isMessage : protoPool.IsMessage .requestTokenT exampleRequest :=
  DescriptorPool.isMessage_setField
    (DescriptorPool.isMessage_setField (protoPool.isMessage_empty _) (by simp [protoPool, MessageType.fields]) (.string _))
    (by simp [protoPool, MessageType.fields]) (.int32 _)

theorem form2pb_eq_json2pb_example :
    form2pb protoPool decimalCast ⟨OrderedMap.entries, fun _ => .rfl⟩ .requestTokenT
        (formText (setFields .requestTokenT exampleRequest).reverse exampleRequest) .empty = .ok exampleRequest ∧
      json2pb protoPool compactJson .requestTokenT
        (jsonText compactJson (setFields .requestTokenT exampleRequest) exampleRequest) .empty = .ok exampleRequest :=
  form2pb_eq_json2pb compactJson_roundTrips decimalCast_readsDecimals ⟨OrderedMap.entries, fun _ => .rfl⟩ (by decide)
    exampleRequest_isMessage (List.reverse_perm _) .rfl

end Identt.Query
